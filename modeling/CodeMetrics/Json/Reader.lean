import CodeMetrics.Json.Token
import CodeMetrics.Json.Value

/-!
# Reading JSON

The reader takes the tokens of a text one at a time and keeps the arrays and objects that are still
open on a stack, so the depth of a text is bounded by its length only.  Exactly one value must stand
in the text.
-/

namespace CodeMetrics.Json

/-- An array or object that is still open, without the value that is being read for it.  Items and
members are kept in reverse order. -/
inductive Open where
  | array (items : List Json)
  | object (members : List (Option String × Json)) (key : Option String)

/-- What has been read, and with it what may come next.  `outer` holds the open arrays and objects
from the inside out. -/
inductive Reading where
  /-- A value must come. -/
  | value (outer : List Open)
  /-- After `[`: an item or `]`. -/
  | firstItem (outer : List Open)
  /-- After the opening brace of an object: a key or the closing brace. -/
  | firstKey (outer : List Open)
  /-- After a comma in an object: a key must come. -/
  | key (members : List (Option String × Json)) (outer : List Open)
  /-- After a key: a colon must come. -/
  | colon (members : List (Option String × Json)) (key : Option String) (outer : List Open)
  /-- A value is complete: a comma, a closing bracket or the end of the text. -/
  | after (value : Json) (outer : List Open)

namespace Reading

/-- Takes the first token of a value. -/
def takeValue (outer : List Open) : Token → Option Reading
  | .openArray => some (.firstItem outer)
  | .openObject => some (.firstKey outer)
  | .null => some (.after .null outer)
  | .bool b => some (.after (.bool b) outer)
  | .number n => some (.after (.number n) outer)
  | .string s => some (.after (.string s) outer)
  | .closeArray | .closeObject | .comma | .colon => none

/-- Takes the next token of a text. -/
def take : Reading → Token → Option Reading
  | .value outer, t => takeValue outer t
  | .firstItem outer, .closeArray => some (.after (.array []) outer)
  | .firstItem outer, t => takeValue (.array [] :: outer) t
  | .firstKey outer, .closeObject => some (.after (.object []) outer)
  | .firstKey outer, .string k => some (.colon [] k outer)
  | .key members outer, .string k => some (.colon members k outer)
  | .colon members k outer, .colon => some (.value (.object members k :: outer))
  | .after v (.array items :: outer), .comma => some (.value (.array (v :: items) :: outer))
  | .after v (.array items :: outer), .closeArray =>
    some (.after (.array (v :: items).reverse) outer)
  | .after v (.object members k :: outer), .comma => some (.key ((k, v) :: members) outer)
  | .after v (.object members k :: outer), .closeObject =>
    some (.after (.object ((k, v) :: members).reverse) outer)
  | _, _ => none

/-- The value read, if the text may end here. -/
def finish : Reading → Option Json
  | .after v [] => some v
  | _ => none

end Reading

/-- The value of a list of tokens. -/
def ofTokens? (tokens : List Token) : Option Json :=
  (tokens.foldlM Reading.take (.value [])).bind Reading.finish

/-- The value of a JSON text. -/
def parse? (text : String) : Option Json :=
  (scan text.toList).bind ofTokens?

end CodeMetrics.Json
