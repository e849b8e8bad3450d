import CodeMetrics.Element

/-!
# Searching for elements

A filter holds a number of optional tests; an element passes if it passes all of those given.
-/

namespace CodeMetrics

/-- Tests on an element. -/
structure ElementFilter where
  kind : Option Kind := none
  /-- What the key starts with. -/
  start : Option String := none
  /-- What the key ends with. -/
  ending : Option String := none
  /-- What the key contains. -/
  part : Option String := none
  /-- The name of a measure that must be attached. -/
  measure : Option String := none
  /-- Whether the element must be a placeholder, or must not. -/
  external : Option Bool := none
  /-- A metric that must have a numeric value. -/
  numeric : Option Metric := none
  /-- A metric that must be a fault. -/
  fault : Option Metric := none

/-- Whether `part` stands somewhere in a list of characters. -/
def ElementFilter.occursIn (part : List Char) : List Char → Bool
  | [] => part.isEmpty
  | c :: rest => part.isPrefixOf (c :: rest) || occursIn part rest

/-- Whether an element passes all tests of a filter. -/
def ElementFilter.accepts (f : ElementFilter) (e : Element) : Bool :=
  let key := e.key.toList
  f.kind.all (e.kind == ·) &&
    f.start.all (·.toList.isPrefixOf key) &&
    f.ending.all (·.toList.isSuffixOf key) &&
    f.part.all (fun part => occursIn part.toList key) &&
    f.measure.all (fun name => (e.measure? name).isSome) &&
    f.external.all (e.isExternal == ·) &&
    f.numeric.all (fun metric => (e.value? metric).isSome) &&
    f.fault.all (fun metric => (e.metric? metric).any Measure.isFault)

end CodeMetrics
