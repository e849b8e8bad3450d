import CodeMetrics.Decimal.Numeral

/-!
# JSON tokens

The tokens of a JSON text, their characters, and the scanner that finds them.

The scanner is a machine that takes one character at a time.  Between tokens it is idle; inside a
word, a number or a string it remembers what it has seen.  A number has no end mark of its own, so
the character that ends it is taken again by the idle machine.
-/

namespace CodeMetrics.Json

open Decimal (Numeral Exponent Sign)

/-- A token of a JSON text. -/
inductive Token where
  | openArray
  | closeArray
  | openObject
  | closeObject
  | comma
  | colon
  | null
  | bool (value : Bool)
  | number (numeral : Numeral)
  | string (text : Option String)
deriving DecidableEq

/-! ## Characters of a token -/

/-- The hexadecimal digit of a number below sixteen, in lower case. -/
def hexChar (n : Nat) : Char := Nat.digitChar n

/-- The characters that stand for one character of a string. -/
def escape (c : Char) : List Char :=
  match c with
  | '"' => ['\\', '"']
  | '\\' => ['\\', '\\']
  | '\x08' => ['\\', 'b']
  | '\x0c' => ['\\', 'f']
  | '\n' => ['\\', 'n']
  | '\r' => ['\\', 'r']
  | '\t' => ['\\', 't']
  | c =>
    if c.toNat < 32 then ['\\', 'u', '0', '0', hexChar (c.toNat / 16), hexChar (c.toNat % 16)]
    else [c]

/-- The characters of a string between its quotes.  A string without a text is written as one half
of a surrogate pair. -/
def stringBody : Option String → List Char
  | some s => s.toList.flatMap escape
  | none => ['\\', 'u', 'd', '8', '0', '0']

/-- The characters of a token. -/
def Token.chars : Token → List Char
  | .openArray => ['[']
  | .closeArray => [']']
  | .openObject => ['\x7b']
  | .closeObject => ['\x7d']
  | .comma => [',']
  | .colon => [':']
  | .null => ['n', 'u', 'l', 'l']
  | .bool true => ['t', 'r', 'u', 'e']
  | .bool false => ['f', 'a', 'l', 's', 'e']
  | .number n => n.chars
  | .string s => '"' :: stringBody s ++ ['"']

/-! ## Numbers under way -/

/-- How far a number has been read. -/
inductive NumberStage where
  /-- After the sign. -/
  | sign
  /-- After a leading zero, which no digit follows. -/
  | zero
  /-- Within the digits before the point. -/
  | whole
  /-- After the point. -/
  | point
  /-- Within the digits after the point. -/
  | fraction
  /-- After the exponent mark. -/
  | mark
  /-- After the sign of the exponent. -/
  | exponentSign
  /-- Within the digits of the exponent. -/
  | exponent
deriving DecidableEq

/-- A number that is being read.  Digits are kept in reverse order. -/
structure PartialNumber where
  stage : NumberStage
  negative : Bool := false
  whole : List Char := []
  fraction : List Char := []
  exponentSign : Option Sign := none
  exponent : List Char := []
deriving DecidableEq

namespace PartialNumber

/-- Takes a digit. -/
def takeDigit (n : PartialNumber) (c : Char) : Option PartialNumber :=
  match n.stage with
  | .sign => some { n with stage := if c = '0' then .zero else .whole, whole := [c] }
  | .zero => none
  | .whole => some { n with whole := c :: n.whole }
  | .point | .fraction => some { n with stage := .fraction, fraction := c :: n.fraction }
  | .mark | .exponentSign | .exponent =>
    some { n with stage := .exponent, exponent := c :: n.exponent }

/-- Takes one more character of the number, if it can belong to it. -/
def take (n : PartialNumber) (c : Char) : Option PartialNumber :=
  if c.isDigit then n.takeDigit c
  else match n.stage, c with
    | .zero, '.' | .whole, '.' => some { n with stage := .point }
    | .zero, 'e' | .zero, 'E' | .whole, 'e' | .whole, 'E' | .fraction, 'e' | .fraction, 'E' =>
      some { n with stage := .mark }
    | .mark, '+' => some { n with stage := .exponentSign, exponentSign := some .plus }
    | .mark, '-' => some { n with stage := .exponentSign, exponentSign := some .minus }
    | _, _ => none

/-- The number, if it may end here. -/
def finish (n : PartialNumber) : Option Numeral :=
  let exponent : Option Exponent :=
    if n.stage = .exponent then some ⟨n.exponentSign, n.exponent.reverse⟩ else none
  match n.stage with
  | .zero | .whole | .fraction | .exponent =>
    some ⟨n.negative, n.whole.reverse, n.fraction.reverse, exponent⟩
  | .sign | .point | .mark | .exponentSign => none

end PartialNumber

/-! ## Strings under way -/

/-- Where in a string the scanner stands. -/
inductive StringStage where
  /-- Between characters. -/
  | plain
  /-- After a backslash. -/
  | escape
  /-- Within the four digits of a numeric escape: how many are still to come, and their value. -/
  | hex (left value : Nat)
deriving DecidableEq

/-- A string that is being read.  Its characters are kept in reverse order. -/
structure PartialString where
  stage : StringStage := .plain
  chars : List Char := []
  /-- The first half of a surrogate pair whose second half must come next. -/
  high : Option Nat := none
  /-- Whether all halves so far have found their partner. -/
  paired : Bool := true
deriving DecidableEq

/-- The value of a hexadecimal digit. -/
def hexValue? (c : Char) : Option Nat :=
  if '0' ≤ c ∧ c ≤ '9' then some (c.toNat - '0'.toNat)
  else if 'a' ≤ c ∧ c ≤ 'f' then some (c.toNat - 'a'.toNat + 10)
  else if 'A' ≤ c ∧ c ≤ 'F' then some (c.toNat - 'A'.toNat + 10)
  else none

/-- The character of a backslash followed by one letter. -/
def shortEscape? : Char → Option Char
  | '"' => some '"'
  | '\\' => some '\\'
  | '/' => some '/'
  | 'b' => some '\x08'
  | 'f' => some '\x0c'
  | 'n' => some '\n'
  | 'r' => some '\r'
  | 't' => some '\t'
  | _ => none

namespace PartialString

/-- Adds a character, which cannot be the partner of a half that waits for one. -/
def push (s : PartialString) (c : Char) : PartialString :=
  { stage := .plain, chars := c :: s.chars, high := none, paired := s.paired && s.high.isNone }

/-- Adds the code unit of a numeric escape: a character, or one half of a surrogate pair. -/
def pushUnit (s : PartialString) (unit : Nat) : PartialString :=
  if 0xD800 ≤ unit ∧ unit < 0xDC00 then
    { s with stage := .plain, high := some unit, paired := s.paired && s.high.isNone }
  else if 0xDC00 ≤ unit ∧ unit < 0xE000 then
    match s.high with
    | some high =>
      let code := 0x10000 + (high - 0xD800) * 0x400 + (unit - 0xDC00)
      { s with stage := .plain, chars := Char.ofNat code :: s.chars, high := none }
    | none => { s with stage := .plain, paired := false }
  else
    s.push (Char.ofNat unit)

/-- Takes one more character of the string; the closing quote is not one. -/
def take (s : PartialString) (c : Char) : Option PartialString :=
  match s.stage with
  | .plain =>
    if c = '\\' then some { s with stage := .escape }
    else if c.toNat < 32 then none
    else some (s.push c)
  | .escape =>
    if c = 'u' then some { s with stage := .hex 3 0 } else (shortEscape? c).map s.push
  | .hex 0 value => (hexValue? c).map fun d => s.pushUnit (value * 16 + d)
  | .hex (left + 1) value =>
    (hexValue? c).map fun d => { s with stage := .hex left (value * 16 + d) }

/-- The text of the string, unless a half of a surrogate pair stands alone. -/
def finish (s : PartialString) : Option String :=
  if s.paired && s.high.isNone then some (String.ofList s.chars.reverse) else none

end PartialString

/-! ## The scanner -/

/-- What the scanner is in the middle of. -/
inductive ScanMode where
  /-- Between tokens. -/
  | idle
  /-- Within a word, whose remaining characters are fixed. -/
  | word (rest : List Char) (token : Token)
  | number (n : PartialNumber)
  | string (s : PartialString)
deriving DecidableEq

/-- The state of the scanner.  The tokens found are kept in reverse order. -/
structure Scanner where
  mode : ScanMode := .idle
  found : List Token := []
deriving DecidableEq

/-- The characters between tokens. -/
def isBlank (c : Char) : Bool :=
  c = ' ' || c = '\t' || c = '\n' || c = '\r'

namespace Scanner

/-- Adds a token and returns to the idle mode. -/
def emit (s : Scanner) (t : Token) : Scanner := ⟨.idle, t :: s.found⟩

/-- Takes a character between tokens. -/
def takeIdle (s : Scanner) (c : Char) : Option Scanner :=
  if isBlank c then some ⟨.idle, s.found⟩
  else if c.isDigit then
    some ⟨.number { stage := if c = '0' then .zero else .whole, whole := [c] }, s.found⟩
  else match c with
    | '[' => some (s.emit .openArray)
    | ']' => some (s.emit .closeArray)
    | '\x7b' => some (s.emit .openObject)
    | '\x7d' => some (s.emit .closeObject)
    | ',' => some (s.emit .comma)
    | ':' => some (s.emit .colon)
    | 'n' => some ⟨.word ['u', 'l', 'l'] .null, s.found⟩
    | 't' => some ⟨.word ['r', 'u', 'e'] (.bool true), s.found⟩
    | 'f' => some ⟨.word ['a', 'l', 's', 'e'] (.bool false), s.found⟩
    | '"' => some ⟨.string {}, s.found⟩
    | '-' => some ⟨.number { stage := .sign, negative := true }, s.found⟩
    | _ => none

/-- Takes one character of the text. -/
def take (s : Scanner) (c : Char) : Option Scanner :=
  match s.mode with
  | .idle => s.takeIdle c
  | .word [] _ => none
  | .word [d] token => if c = d then some (s.emit token) else none
  | .word (d :: rest) token => if c = d then some ⟨.word rest token, s.found⟩ else none
  | .number n =>
    match n.take c with
    | some n => some ⟨.number n, s.found⟩
    | none => n.finish.bind fun numeral => (s.emit (.number numeral)).takeIdle c
  | .string text =>
    if text.stage = .plain ∧ c = '"' then some (s.emit (.string text.finish))
    else (text.take c).map fun text => ⟨.string text, s.found⟩

/-- The tokens found, if the text may end here. -/
def finish (s : Scanner) : Option (List Token) :=
  match s.mode with
  | .idle => some s.found.reverse
  | .number n => n.finish.map fun numeral => (Token.number numeral :: s.found).reverse
  | .word _ _ | .string _ => none

end Scanner

/-- The tokens of a text. -/
def scan (text : List Char) : Option (List Token) :=
  (text.foldlM Scanner.take {}).bind Scanner.finish

end CodeMetrics.Json
