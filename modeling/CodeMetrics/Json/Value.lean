import CodeMetrics.Decimal.Numeral

/-!
# JSON values

A JSON value as it stands in a text: numbers keep their digits, objects keep the order and the
repetitions of their members.

A string whose escapes hold one half of a surrogate pair is well-formed JSON that denotes no text.
It is kept as `none`, so that such a string can be skipped, and is refused only where it is used.
-/

namespace CodeMetrics

/-- A JSON value. -/
inductive Json where
  | null
  | bool (value : Bool)
  | number (numeral : Decimal.Numeral)
  | string (text : Option String)
  | array (items : List Json)
  | object (members : List (Option String × Json))

namespace Json

/-- The JSON string of a text. -/
def text (s : String) : Json := .string (some s)

/-- The JSON number of a natural number. -/
def nat (n : Nat) : Json := .number (.ofNat n)

/-- The text of a JSON string. -/
def text? : Json → Option String
  | .string s => s
  | _ => none

/-- The items of a JSON array. -/
def items? : Json → Option (List Json)
  | .array items => some items
  | _ => none

/-- A natural number below `bound`, written with digits only. -/
def natBelow? (bound : Nat) : Json → Option Nat
  | .number n => n.toNat?.filter (· < bound)
  | _ => none

/-- A JSON object with text keys. -/
def record (members : List (String × Json)) : Json :=
  .object (members.map fun (key, value) => (some key, value))

/-- The JSON form of an optional value: `null` when there is none. -/
def ofOption {α : Type} (encode : α → Json) : Option α → Json
  | none => .null
  | some a => encode a

/-- The JSON array of a list. -/
def ofList {α : Type} (encode : α → Json) (l : List α) : Json :=
  .array (l.map encode)

end Json

end CodeMetrics
