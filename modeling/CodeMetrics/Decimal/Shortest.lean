/-!
# Shortest decimal digits of a double

A finite double is `m * 2 ^ q`.  The real numbers that round to it form an interval around it, whose
ends belong to it exactly when `m` is even.  Its **shortest digits** are the decimal with the fewest
digits in that interval, and among those the one nearest to the double.

The search runs over the decimal grids of one to seventeen digits.  On each grid only the two
neighbours of the value can be the nearest point, so only these are tested, by exact arithmetic on
natural numbers.
-/

namespace CodeMetrics.Decimal

/-- A finite double without its sign: the value `mantissa * 2 ^ exponent`. -/
structure Binary where
  /-- The integral significand. -/
  mantissa : Nat
  /-- The power of two that scales it. -/
  exponent : Int
  /-- Whether the next smaller double is only half as far away as the next larger one. -/
  narrowBelow : Bool
deriving DecidableEq

/-- A double, taken apart. -/
inductive Magnitude where
  | notANumber
  | infinite (negative : Bool)
  | finite (negative : Bool) (value : Binary)
deriving DecidableEq

/-- The parts of a double, read from its sixty-four bits. -/
def Magnitude.ofBits (bits : Nat) : Magnitude :=
  let negative := bits / Nat.pow 2 63 % 2 == 1
  let field : Nat := bits / Nat.pow 2 52 % Nat.pow 2 11
  let fraction : Nat := bits % Nat.pow 2 52
  if field = 2047 then
    if fraction = 0 then .infinite negative else .notANumber
  else if field = 0 then
    .finite negative ⟨fraction, -1074, false⟩
  else
    .finite negative ⟨Nat.pow 2 52 + fraction, (field : Int) - 1075, fraction = 0 && 1 < field⟩

/-- The parts of a double. -/
def Magnitude.ofFloat (value : Float) : Magnitude :=
  .ofBits value.toBits.toNat

/-- Which of two equally near decimals is taken. -/
inductive Tie where
  /-- The larger one. -/
  | up
  /-- The one whose last digit is even. -/
  | even
deriving DecidableEq

/-- The decimal `significand * 10 ^ exponent`. -/
structure Scaled where
  significand : Nat
  exponent : Int
deriving DecidableEq

/-- The number of decimal digits of `n`; zero has one. -/
def digitCount (n : Nat) : Nat := (Nat.toDigits 10 n).length

/-- A value with the ends of its rounding interval, as numerators over one denominator. -/
structure Interval where
  low : Nat
  value : Nat
  high : Nat
  denominator : Nat
  /-- Whether the two ends belong to the interval. -/
  closed : Bool

namespace Interval

/-- The reals that round to a double.  Quarters of the last place make every bound integral. -/
def ofBinary (x : Binary) : Interval :=
  let scale := Nat.pow 2 (x.exponent - 2).toNat
  { low := (4 * x.mantissa - if x.narrowBelow then 1 else 2) * scale
    value := 4 * x.mantissa * scale
    high := (4 * x.mantissa + 2) * scale
    denominator := Nat.pow 2 (2 - x.exponent).toNat
    closed := x.mantissa % 2 == 0 }

/-- The power of ten of the leading digit of the value. -/
def leading (i : Interval) : Int :=
  if i.denominator ≤ i.value then
    (digitCount (i.value / i.denominator) : Int) - 1
  else
    -(digitCount ((i.denominator + i.value - 1) / i.value - 1) : Int)

/-- Whether a point lies in the interval, once the bounds are multiplied by `stretch`. -/
def contains (i : Interval) (stretch point : Nat) : Bool :=
  if i.closed then
    i.low * stretch ≤ point && point ≤ i.high * stretch
  else
    i.low * stretch < point && point < i.high * stretch

/-- The point of the grid `10 ^ place` that lies in the interval and is nearest to the value. -/
def onGrid? (i : Interval) (tie : Tie) (place : Int) : Option Nat :=
  let stretch := Nat.pow 10 (-place).toNat
  let unit := i.denominator * Nat.pow 10 place.toNat
  let value := i.value * stretch
  let below := value / unit
  let rest := value % unit
  match i.contains stretch (below * unit), i.contains stretch ((below + 1) * unit) with
  | false, false => none
  | true, false => some below
  | false, true => some (below + 1)
  | true, true =>
    if 2 * rest < unit then some below
    else if unit < 2 * rest then some (below + 1)
    else match tie with
      | .up => some (below + 1)
      | .even => some (if below % 2 = 0 then below else below + 1)

/-- The first grid with a point in the interval, from the coarsest to seventeen digits. -/
def shortest (i : Interval) (tie : Tie) : Scaled :=
  let places := (List.range 17).map fun (k : Nat) => i.leading - (k : Int)
  match places.findSome? fun place => (i.onGrid? tie place).map (Scaled.mk · place) with
  | some d => d
  | none => ⟨i.value / i.denominator, 0⟩

end Interval

/-- The shortest digits of a double; zero is its own decimal. -/
def Binary.shortest (x : Binary) (tie : Tie) : Scaled :=
  if x.mantissa = 0 then ⟨0, 0⟩ else (Interval.ofBinary x).shortest tie

end CodeMetrics.Decimal
