import CodeMetrics.Decimal.Layout

/-!
# Metrics and measures

A `Metric` is one of the six quantities that the analysis itself computes.  A `Measure` is the value
of a metric for one program unit: a number, or the mark of an inheritance chain that never ends.
-/

namespace CodeMetrics

/-- The quantities computed for types by the analysis itself. -/
inductive Metric where
  /-- Depth of inheritance. -/
  | dit
  /-- Number of direct subclasses. -/
  | noc
  /-- Response set of a class. -/
  | rfc
  /-- Lack of cohesion, as a number of connected components. -/
  | lcom4
  /-- Afferent coupling: how many types depend on this one. -/
  | ca
  /-- Efferent coupling: on how many types this one depends. -/
  | ce
deriving DecidableEq

namespace Metric

/-- All metrics. -/
def all : List Metric := [dit, noc, rfc, lcom4, ca, ce]

/-- The name under which a metric is attached to an element. -/
def name : Metric → String
  | dit => "dit"
  | noc => "noc"
  | rfc => "rfc"
  | lcom4 => "lcom4"
  | ca => "ca"
  | ce => "ce"

/-- The metric of a name. -/
def ofName? (s : String) : Option Metric :=
  all.find? (·.name == s)

end Metric

/-- The value of a metric for one element. -/
inductive Measure where
  /-- A numeric value. -/
  | number (value : Float)
  /-- The inheritance chain of the element loops. -/
  | cycle
deriving DecidableEq

namespace Measure

/-- The measure of a count.  A count beyond `2 ^ 53` is rounded to the nearest double. -/
def ofCount (n : Nat) : Measure := .number (Float.ofNat n)

/-- The numeric value, if there is one. -/
def value? : Measure → Option Float
  | .number value => some value
  | .cycle => none

/-- Whether the measure marks a computation that has no numeric answer. -/
def isFault : Measure → Bool
  | .number _ => false
  | .cycle => true

/-- Equality of measures by value: zeros of either sign agree, and no NaN agrees with itself. -/
def sameValue : Measure → Measure → Bool
  | .number a, .number b => a == b
  | .cycle, .cycle => true
  | _, _ => false

/-- The layout of a measure in plain text: every digit is written out, a whole number has no
fraction, and of two equally near digit strings the larger is taken. -/
def plainFormat : Decimal.Format where
  positional := fun _ => true
  wholeFraction := []
  tie := .up

/-- The plain text of a double. -/
def plainNumber (value : Float) : String :=
  match Decimal.Magnitude.ofFloat value with
  | .notANumber => "NaN"
  | .infinite negative => if negative then "-inf" else "inf"
  | .finite negative parts => String.ofList (plainFormat.numeral negative parts).chars

/-- The plain text of a measure. -/
def text : Measure → String
  | .number value => plainNumber value
  | .cycle => "cycle"

end Measure

end CodeMetrics
