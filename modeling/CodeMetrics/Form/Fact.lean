import CodeMetrics.Fact
import CodeMetrics.Form.Element

/-!
# JSON forms of facts

A reference is a record with a tag, `fact`, that tells calls from field accesses.  In an object the
tag may stand anywhere, in an array it is the first item.  As the tag may come last, all other
members are kept until it is known; so even those that are ignored must be values that can be kept.
-/

namespace CodeMetrics

/-- The greatest depth to which arrays and objects may be nested around kept values. -/
def depthLimit : Nat := 127

/-- Reads a 32-bit number. -/
def word? (value : Json) : Option UInt32 :=
  (value.natBelow? UInt32.size).map UInt32.ofNat

/-- The JSON form of a 32-bit number. -/
def wordJson (n : UInt32) : Json := .nat n.toNat

namespace Declaration

/-- The JSON form of a declaration. -/
def toJson (d : Declaration) : Json :=
  .record [
    ("kind", d.kind.toJson),
    ("key", .text d.key),
    ("parent", .ofOption .text d.parent)]

/-- Reads a declaration. -/
def ofJson? (value : Json) : Option Declaration := do
  match ← value.fields? ["kind", "key", "parent"] with
  | [kind, key, parent] =>
    return {
      kind := ← Json.required? Kind.ofJson? kind
      key := ← Json.required? Json.text? key
      parent := ← Json.optional? Json.text? parent }
  | _ => none

end Declaration

/-- The JSON form of a field. -/
def Field.toJson (f : Field) : Json := .record [("name", .text f.name)]

/-- Reads a field. -/
def Field.ofJson? (value : Json) : Option Field := do
  match ← value.fields? ["name"] with
  | [name] => return ⟨← Json.required? Json.text? name⟩
  | _ => none

namespace Call

/-- The members of the JSON form of a call. -/
def members (c : Call) : List (String × Json) :=
  [("site", wordJson c.site), ("owner", .text c.owner), ("signature", .text c.signature)]

/-- The JSON form of a call. -/
def toJson (c : Call) : Json := .record c.members

/-- Reads a call. -/
def ofJson? (value : Json) : Option Call := do
  match ← value.fields? ["site", "owner", "signature"] with
  | [site, owner, signature] =>
    return {
      site := ← Json.required? word? site
      owner := ← Json.required? Json.text? owner
      signature := ← Json.required? Json.text? signature }
  | _ => none

end Call

namespace Access

/-- The members of the JSON form of a field access. -/
def members (a : Access) : List (String × Json) :=
  [("site", wordJson a.site), ("owner", .text a.owner), ("name", .text a.name)]

/-- The JSON form of a field access. -/
def toJson (a : Access) : Json := .record a.members

/-- Reads a field access. -/
def ofJson? (value : Json) : Option Access := do
  match ← value.fields? ["site", "owner", "name"] with
  | [site, owner, name] =>
    return {
      site := ← Json.required? word? site
      owner := ← Json.required? Json.text? owner
      name := ← Json.required? Json.text? name }
  | _ => none

end Access

namespace Reference

/-- The JSON form of a reference. -/
def toJson : Reference → Json
  | .call c => .record (("fact", .text "call") :: c.members)
  | .access a => .record (("fact", .text "field_access") :: a.members)

/-- The tag of a reference and the value without it. -/
def untag? : Json → Option (String × Json)
  | .object members =>
    match members.partition (·.1 == some "fact") with
    | ([(_, .string (some tag))], rest) => some (tag, .object rest)
    | _ => none
  | .array (.string (some tag) :: rest) => some (tag, .array rest)
  | _ => none

/-- Reads a reference that may nest arrays and objects at most `depth` deep. -/
def ofJsonWithin? (depth : Nat) (value : Json) : Option Reference :=
  if value.keepable depth then
    match untag? value with
    | some ("call", content) => (Call.ofJson? content).map .call
    | some ("field_access", content) => (Access.ofJson? content).map .access
    | _ => none
  else none

/-- Reads a reference. -/
def ofJson? : Json → Option Reference := ofJsonWithin? depthLimit

end Reference

namespace Method

/-- The JSON form of a method. -/
def toJson (m : Method) : Json :=
  .record [("signature", .text m.signature), ("body", .ofList Reference.toJson m.body)]

/-- Reads a method that may nest arrays and objects at most `depth` deep around kept values. -/
def ofJsonWithin? (depth : Nat) (value : Json) : Option Method := do
  match ← value.fields? ["signature", "body"] with
  | [signature, body] =>
    return {
      signature := ← Json.required? Json.text? signature
      body := ← Json.required? (Json.list? (Reference.ofJsonWithin? (depth - 2))) body }
  | _ => none

/-- Reads a method. -/
def ofJson? : Json → Option Method := ofJsonWithin? depthLimit

end Method

namespace ClassFacts

/-- The JSON form of a class. -/
def toJson (c : ClassFacts) : Json :=
  .record [
    ("key", .text c.key),
    ("superclass", .ofOption .text c.superclass),
    ("interfaces", .ofList .text c.interfaces),
    ("fields", .ofList Field.toJson c.fields),
    ("methods", .ofList Method.toJson c.methods)]

/-- Reads a class. -/
def ofJson? (value : Json) : Option ClassFacts := do
  match ← value.fields? ["key", "superclass", "interfaces", "fields", "methods"] with
  | [key, superclass, interfaces, fields, methods] =>
    return {
      key := ← Json.required? Json.text? key
      superclass := ← Json.optional? Json.text? superclass
      interfaces := ← Json.required? (Json.list? Json.text?) interfaces
      fields := ← Json.required? (Json.list? Field.ofJson?) fields
      methods := ← Json.required? (Json.list? (Method.ofJsonWithin? (depthLimit - 2))) methods }
  | _ => none

end ClassFacts

end CodeMetrics
