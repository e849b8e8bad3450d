import CodeMetrics.Decimal.Reading
import CodeMetrics.Decimal.Layout
import CodeMetrics.Json.Value

/-!
# Records, variants and doubles in JSON

How the parts of a structured value are found in a JSON value.

* A record is an object or an array.  In an object the members may stand in any order, members with
  other names are ignored, and a member of the record may stand there once.  In an array the values
  stand in the order of the record.
* A variant is its name, or an object whose only member has that name.
* A double is any number that has a finite value.
-/

namespace CodeMetrics.Json

/-! ## Records -/

/-- The members of an object whose keys are all texts. -/
def namedMembers? (members : List (Option String × Json)) : Option (List (String × Json)) :=
  members.mapM fun (key, value) => key.map (·, value)

/-- The value of a name, which may be absent but not repeated. -/
def memberOnce? (members : List (String × Json)) (name : String) : Option (Option Json) :=
  match members.filter (·.1 == name) with
  | [] => some none
  | [(_, value)] => some (some value)
  | _ => none

/-- The values of a record in an object, in the order of `names`. -/
def objectFields? (names : List String) (members : List (Option String × Json)) :
    Option (List (Option Json)) :=
  (namedMembers? members).bind fun members => names.mapM (memberOnce? members)

/-- The values of a record, in the order of `names`.  An array must hold all of them. -/
def fields? (names : List String) : Json → Option (List (Option Json))
  | .object members => objectFields? names members
  | .array items => if items.length = names.length then some (items.map some) else none
  | _ => none

/-- The values of a record, in the order of `names`.  An array may end early. -/
def someFields? (names : List String) : Json → Option (List (Option Json))
  | .object members => objectFields? names members
  | .array items =>
    if items.length ≤ names.length then
      some (items.map some ++ List.replicate (names.length - items.length) none)
    else none
  | _ => none

variable {α : Type}

/-- A value that must be there. -/
def required? (decode : Json → Option α) (value : Option Json) : Option α :=
  value.bind decode

/-- A value that may be absent or `null`. -/
def optional? (decode : Json → Option α) : Option Json → Option (Option α)
  | none | some .null => some none
  | some value => (decode value).map some

/-- A value that has a default when it is absent. -/
def defaulted? (default : α) (decode : Json → Option α) : Option Json → Option α
  | none => some default
  | some value => decode value

/-- All items of an array. -/
def list? (decode : Json → Option α) (value : Json) : Option (List α) :=
  value.items?.bind (·.mapM decode)

/-! ## Variants -/

/-- The name of a variant and its content. -/
def variant? : Json → Option (String × Option Json)
  | .string (some name) => some (name, none)
  | .object [(some name, content)] => some (name, some content)
  | _ => none

/-- A variant without content, which may be written with `null` as its content. -/
def plainVariant? (ofName? : String → Option α) (value : Json) : Option α :=
  match value.variant? with
  | some (name, none) | some (name, some .null) => ofName? name
  | _ => none

/-! ## Doubles -/

/-- The layout of a double: powers of ten from `-5` to `15` are written without an exponent, a whole
number ends in `.0`, and of two equally near digit strings the one with the even digit is taken. -/
def doubleFormat : Decimal.Format where
  positional := fun leading => -5 ≤ leading && leading ≤ 15
  wholeFraction := ['0']
  tie := .even

/-- The JSON form of a double; one that is not finite has none and becomes `null`. -/
def double (value : Float) : Json :=
  match Decimal.Magnitude.ofFloat value with
  | .finite negative parts => .number (doubleFormat.numeral negative parts)
  | .notANumber | .infinite _ => .null

/-- The double of a JSON number. -/
def double? : Json → Option Float
  | .number n => n.toFloat?
  | _ => none

/-! ## Values that are kept before their meaning is known -/

/-- Whether a value can be kept: its strings are texts, its numbers have finite values, and arrays
and objects are nested at most `depth` deep. -/
def keepable : Nat → Json → Bool
  | _, .null | _, .bool _ => true
  | _, .number n => n.toFloat?.isSome
  | _, .string s => s.isSome
  | 0, .array _ | 0, .object _ => false
  | depth + 1, .array items => items.all (keepable depth)
  | depth + 1, .object members => members.all fun (key, value) => key.isSome && keepable depth value

end CodeMetrics.Json
