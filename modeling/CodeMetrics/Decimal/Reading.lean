import CodeMetrics.Decimal.Numeral

/-!
# Reading a numeral as a double

The digits of a numeral are gathered into a 64-bit significand as long as they fit.  The
significand is rounded once to a double and scaled once by a power of ten, so a value with few
digits and a small exponent is read exactly, and any other within a few units of the last place.  A
value beyond the largest double is refused; one below the smallest becomes zero.
-/

namespace CodeMetrics.Decimal

/-- The first number that no longer fits a significand. -/
def significandBound : Nat := Nat.pow 2 64

/-- The largest power of ten that is a double. -/
def largestPower : Nat := 308

/-- A significand with the power of ten that scales it. -/
structure Gathered where
  significand : Nat
  exponent : Int
  /-- Whether a digit has already been left out. -/
  full : Bool
deriving DecidableEq

namespace Gathered

/-- The significand extended by one digit, if the result fits. -/
def extend? (g : Gathered) (digit : Char) : Option Nat :=
  let next := g.significand * 10 + (digit.toNat - '0'.toNat)
  if g.full || significandBound ≤ next then none else some next

/-- Takes a digit before the point.  A digit that does not fit still counts as a place. -/
def takeWhole (g : Gathered) (digit : Char) : Gathered :=
  match g.extend? digit with
  | some next => { g with significand := next }
  | none => { g with exponent := g.exponent + 1, full := true }

/-- Takes a digit after the point.  A digit that does not fit is dropped. -/
def takeFraction (g : Gathered) (digit : Char) : Gathered :=
  match g.extend? digit with
  | some next => { g with significand := next, exponent := g.exponent - 1 }
  | none => { g with full := true }

/-- The significand and scale of the digits on both sides of the point. -/
def ofDigits (whole fraction : List Char) : Gathered :=
  let w := whole.foldl takeWhole ⟨0, 0, false⟩
  fraction.foldl takeFraction { w with full := false }

end Gathered

/-- The double nearest to a power of ten. -/
def powerOfTen (n : Nat) : Float := Float.ofScientific 1 false n

/-- Divides by a power of ten, in steps of the largest one that is a double. -/
def divideByPower (value : Float) (n : Nat) : Float :=
  if n ≤ largestPower then value / powerOfTen n
  else if value == 0 then value
  else divideByPower (value / powerOfTen largestPower) (n - largestPower)
termination_by n
decreasing_by simp_all [largestPower]; omega

/-- Multiplies by a power of ten, unless the result has no finite double. -/
def multiplyByPower? (value : Float) (n : Nat) : Option Float :=
  if n ≤ largestPower then
    let scaled := value * powerOfTen n
    if scaled.isInf then none else some scaled
  else if value == 0 then some value
  else none

/-- Scales a significand by a power of ten. -/
def scale? (significand : Nat) (exponent : Int) : Option Float :=
  let value := Float.ofNat significand
  if exponent < 0 then some (divideByPower value exponent.natAbs)
  else if exponent = 0 then some value
  else multiplyByPower? value exponent.natAbs

/-- The value of a written exponent. -/
def Exponent.value (e : Exponent) : Int :=
  let n := (Nat.ofDigitChars 10 e.digits 0 : Int)
  if e.sign = some .minus then -n else n

/-- The double that a numeral denotes. -/
def Numeral.toFloat? (n : Numeral) : Option Float :=
  let g := Gathered.ofDigits n.whole n.fraction
  let exponent := (n.exponent.map Exponent.value).getD 0
  (scale? g.significand (g.exponent + exponent)).map fun value =>
    if n.negative then -value else value

end CodeMetrics.Decimal
