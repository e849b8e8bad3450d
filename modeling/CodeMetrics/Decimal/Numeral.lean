/-!
# Decimal numerals

A numeral is a decimal number as it is written: a sign, the digits before the point, the digits
after it, and an exponent.  Numbers are read and written through this type, so that the digits of a
text survive until somebody asks for their value.
-/

namespace CodeMetrics.Decimal

/-- A written sign. -/
inductive Sign where
  | plus
  | minus
deriving DecidableEq

/-- The character of a sign. -/
def Sign.char : Sign → Char
  | plus => '+'
  | minus => '-'

/-- The exponent of a numeral; its sign may be left out. -/
structure Exponent where
  sign : Option Sign
  digits : List Char
deriving DecidableEq

/-- A number in decimal writing. -/
structure Numeral where
  negative : Bool
  /-- The digits before the point. -/
  whole : List Char
  /-- The digits after the point; without any, no point is written. -/
  fraction : List Char
  exponent : Option Exponent
deriving DecidableEq

namespace Numeral

/-- The numeral of a natural number. -/
def ofNat (n : Nat) : Numeral :=
  ⟨false, Nat.toDigits 10 n, [], none⟩

/-- The characters of an exponent. -/
def exponentChars : Option Exponent → List Char
  | none => []
  | some e => 'e' :: (e.sign.map Sign.char).toList ++ e.digits

/-- The characters of a numeral. -/
def chars (n : Numeral) : List Char :=
  (if n.negative then ['-'] else []) ++ n.whole ++
    (if n.fraction.isEmpty then [] else '.' :: n.fraction) ++ exponentChars n.exponent

/-- The natural number that a numeral denotes, if it is written with digits only. -/
def toNat? (n : Numeral) : Option Nat :=
  if !n.negative && n.fraction.isEmpty && n.exponent.isNone then
    some (Nat.ofDigitChars 10 n.whole 0)
  else
    none

end Numeral

end CodeMetrics.Decimal
