import CodeMetrics.Element
import CodeMetrics.Index
import CodeMetrics.Json.Record

/-!
# JSON forms of elements

A handle is its number, kinds and metrics are their names, and a measure is a variant.  The measures
of an element form an object sorted by name; when it is read, the last of several members counts.
-/

namespace CodeMetrics

/-- The first number that is no handle in a text. -/
def handleBound : Nat := Nat.pow 2 64

/-- The JSON form of a handle. -/
def Handle.toJson (h : Handle) : Json := .nat h.slot

/-- Reads a handle. -/
def Handle.ofJson? (value : Json) : Option Handle :=
  (value.natBelow? handleBound).map Handle.mk

/-- The JSON form of a kind. -/
def Kind.toJson (k : Kind) : Json := .text k.name

/-- Reads a kind. -/
def Kind.ofJson? : Json → Option Kind := Json.plainVariant? Kind.ofName?

/-- The JSON form of a metric. -/
def Metric.toJson (m : Metric) : Json := .text m.name

/-- Reads a metric. -/
def Metric.ofJson? : Json → Option Metric := Json.plainVariant? Metric.ofName?

/-- The JSON form of a measure. -/
def Measure.toJson : Measure → Json
  | .number value => .record [("number", .double value)]
  | .cycle => .text "cycle"

/-- Reads a measure. -/
def Measure.ofJson? (value : Json) : Option Measure :=
  match value.variant? with
  | some ("cycle", none) | some ("cycle", some .null) => some .cycle
  | some ("number", some content) => content.double?.map .number
  | _ => none

namespace Element

/-- The JSON form of the measures of an element. -/
def measuresJson (measures : Std.ExtTreeMap String Measure) : Json :=
  .record (measures.toList.map fun (name, value) => (name, value.toJson))

/-- Reads the measures of an element. -/
def measuresOfJson? : Json → Option (Std.ExtTreeMap String Measure)
  | .object members => do
    let named ← Json.namedMembers? members
    let read ← named.mapM fun (name, value) => (Measure.ofJson? value).map (name, ·)
    return Std.ExtTreeMap.ofList read
  | _ => none

/-- The JSON form of an element. -/
def toJson (e : Element) : Json :=
  .record [
    ("id", e.handle.toJson),
    ("key", .text e.key),
    ("kind", e.kind.toJson),
    ("parent", .ofOption Handle.toJson e.parent),
    ("children", .ofList Handle.toJson e.children),
    ("measures", measuresJson e.measures)]

/-- Reads an element. -/
def ofJson? (value : Json) : Option Element := do
  match ← value.fields? ["id", "key", "kind", "parent", "children", "measures"] with
  | [id, key, kind, parent, children, measures] =>
    return {
      handle := ← Json.required? Handle.ofJson? id
      key := ← Json.required? Json.text? key
      kind := ← Json.required? Kind.ofJson? kind
      parent := ← Json.optional? Handle.ofJson? parent
      children := ← Json.required? (Json.list? Handle.ofJson?) children
      measures := ← Json.required? measuresOfJson? measures }
  | _ => none

end Element

/-- The JSON form of an index: its elements. -/
def Index.toJson (ix : Index) : Json :=
  .record [("elements", .ofList Element.toJson ix.elements.toList)]

end CodeMetrics
