import CodeMetrics.Edge
import CodeMetrics.Form.Fact

/-!
# JSON forms of dependencies
-/

namespace CodeMetrics

/-- The JSON form of a kind of dependency. -/
def EdgeKind.toJson (k : EdgeKind) : Json := .text k.name

/-- Reads a kind of dependency. -/
def EdgeKind.ofJson? : Json → Option EdgeKind := Json.plainVariant? EdgeKind.ofName?

namespace Edge

/-- The JSON form of a dependency between handles. -/
def toJson (e : Edge) : Json :=
  .record [
    ("source", e.source.toJson),
    ("target", e.target.toJson),
    ("kind", e.kind.toJson),
    ("usage", wordJson e.usage)]

/-- Reads a dependency between handles. -/
def ofJson? (value : Json) : Option Edge := do
  match ← value.fields? ["source", "target", "kind", "usage"] with
  | [source, target, kind, usage] =>
    return {
      source := ← Json.required? Handle.ofJson? source
      target := ← Json.required? Handle.ofJson? target
      kind := ← Json.required? EdgeKind.ofJson? kind
      usage := ← Json.required? word? usage }
  | _ => none

end Edge

namespace KeyedEdge

/-- The JSON form of a dependency between keys. -/
def toJson (e : KeyedEdge) : Json :=
  .record [
    ("source", .text e.source),
    ("target", .text e.target),
    ("kind", e.kind.toJson),
    ("usage", wordJson e.usage)]

/-- Reads a dependency between keys. -/
def ofJson? (value : Json) : Option KeyedEdge := do
  match ← value.fields? ["source", "target", "kind", "usage"] with
  | [source, target, kind, usage] =>
    return {
      source := ← Json.required? Json.text? source
      target := ← Json.required? Json.text? target
      kind := ← Json.required? EdgeKind.ofJson? kind
      usage := ← Json.required? word? usage }
  | _ => none

end KeyedEdge

end CodeMetrics
