import CodeMetrics.Json.Token
import CodeMetrics.Json.Value

/-!
# Writing JSON

Two layouts of a JSON value.  The compact one has no blanks.  The indented one puts each item and
each member on a line of its own, two spaces deeper than the brackets around it; an empty array or
object stays on its line.
-/

namespace CodeMetrics.Json

/-! ## Compact -/

mutual

/-- The tokens of a value. -/
def tokens : Json → List Token
  | .null => [.null]
  | .bool b => [.bool b]
  | .number n => [.number n]
  | .string s => [.string s]
  | .array items => .openArray :: itemTokens items ++ [.closeArray]
  | .object members => .openObject :: memberTokens members ++ [.closeObject]

/-- The tokens between the brackets of an array. -/
def itemTokens : List Json → List Token
  | [] => []
  | [v] => tokens v
  | v :: w :: rest => tokens v ++ .comma :: itemTokens (w :: rest)

/-- The tokens between the braces of an object. -/
def memberTokens : List (Option String × Json) → List Token
  | [] => []
  | [(key, v)] => .string key :: .colon :: tokens v
  | (key, v) :: m :: rest => .string key :: .colon :: tokens v ++ .comma :: memberTokens (m :: rest)

end

/-- The compact text of a value. -/
def compact (v : Json) : String :=
  String.ofList (v.tokens.flatMap Token.chars)

/-! ## Indented -/

/-- A line break followed by the indentation of a depth. -/
def lineBreak (depth : Nat) : List Char :=
  '\n' :: List.replicate (2 * depth) ' '

mutual

/-- The characters of a value that stands at `depth`. -/
def prettyChars (depth : Nat) : Json → List Char
  | .null => Token.null.chars
  | .bool b => (Token.bool b).chars
  | .number n => (Token.number n).chars
  | .string s => (Token.string s).chars
  | .array [] => ['[', ']']
  | .array (v :: rest) =>
    '[' :: lineBreak (depth + 1) ++ prettyChars (depth + 1) v ++ prettyItems (depth + 1) rest ++
      lineBreak depth ++ [']']
  | .object [] => ['\x7b', '\x7d']
  | .object ((key, v) :: rest) =>
    '\x7b' :: lineBreak (depth + 1) ++ (Token.string key).chars ++ ':' :: ' ' ::
      prettyChars (depth + 1) v ++ prettyMembers (depth + 1) rest ++ lineBreak depth ++ ['\x7d']

/-- The characters of the items after the first. -/
def prettyItems (depth : Nat) : List Json → List Char
  | [] => []
  | v :: rest => ',' :: lineBreak depth ++ prettyChars depth v ++ prettyItems depth rest

/-- The characters of the members after the first. -/
def prettyMembers (depth : Nat) : List (Option String × Json) → List Char
  | [] => []
  | (key, v) :: rest =>
    ',' :: lineBreak depth ++ (Token.string key).chars ++ ':' :: ' ' :: prettyChars depth v ++
      prettyMembers depth rest

end

/-- The indented text of a value. -/
def pretty (v : Json) : String :=
  String.ofList (prettyChars 0 v)

end CodeMetrics.Json
