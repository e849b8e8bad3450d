import CodeMetrics.Decimal.Numeral
import CodeMetrics.Decimal.Shortest

/-!
# Layout of decimal numbers

How the shortest digits of a double are written: which powers of ten are spelled out with zeros and
which take an exponent, and how a whole number ends.
-/

namespace CodeMetrics.Decimal

/-- The digits of a decimal, without zeros at the end, and the power of ten of the first one. -/
structure Digits where
  digits : List Char
  leading : Int
deriving DecidableEq

/-- The digits of a decimal; zero is the single digit `0`. -/
def Scaled.digits (d : Scaled) : Digits :=
  let all := Nat.toDigits 10 d.significand
  let kept := (all.reverse.dropWhile (· == '0')).reverse
  if kept.isEmpty then ⟨['0'], 0⟩ else ⟨kept, d.exponent + all.length - 1⟩

/-- The decisions of a number format. -/
structure Format where
  /-- The powers of ten of a leading digit that are written without an exponent. -/
  positional : Int → Bool
  /-- The fraction of a whole number written without an exponent. -/
  wholeFraction : List Char
  /-- Which of two equally near shortest decimals is taken. -/
  tie : Tie

/-- Digits written without an exponent. -/
def Digits.positional (d : Digits) (negative : Bool) (wholeFraction : List Char) : Numeral :=
  let places := (d.leading + 1).toNat
  if d.leading < 0 then
    ⟨negative, ['0'], List.replicate (-d.leading - 1).toNat '0' ++ d.digits, none⟩
  else if d.digits.length ≤ places then
    ⟨negative, d.digits ++ List.replicate (places - d.digits.length) '0', wholeFraction, none⟩
  else
    ⟨negative, d.digits.take places, d.digits.drop places, none⟩

/-- Digits written with an exponent, whose sign is always given. -/
def Digits.scientific (d : Digits) (negative : Bool) : Numeral :=
  ⟨negative, d.digits.take 1, d.digits.drop 1,
    some ⟨some (if d.leading < 0 then .minus else .plus), Nat.toDigits 10 d.leading.natAbs⟩⟩

/-- The numeral of a finite double. -/
def Format.numeral (format : Format) (negative : Bool) (value : Binary) : Numeral :=
  let digits := (value.shortest format.tie).digits
  if format.positional digits.leading then digits.positional negative format.wholeFraction
  else digits.scientific negative

end CodeMetrics.Decimal
