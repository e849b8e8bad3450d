import CodeMetrics.Measure
import Std.Data.ExtTreeMap

/-!
# Program elements

An element is one program unit: a project, a package, a source file, a type, a member of a type, or
a placeholder for a type that is only known because something depends on it.  Elements are numbered
in the order of their registration; a `Handle` is such a number.
-/

namespace CodeMetrics

/-- The number of an element within one index. -/
structure Handle where
  slot : Nat
deriving DecidableEq

namespace Handle

/-- The text of a handle in messages. -/
def text (h : Handle) : String := s!"#{h.slot}"

/-- Handles are ordered by their numbers. -/
instance : Ord Handle := ⟨compareOn slot⟩

instance : Std.TransOrd Handle := inferInstanceAs (Std.TransCmp (compareOn slot))

instance : Std.LawfulEqOrd Handle where
  compare_self := Std.ReflOrd.compare_self (α := Nat)
  eq_of_compare {a b} h := by
    cases a
    cases b
    exact congrArg mk (Std.LawfulEqOrd.eq_of_compare (α := Nat) h)

end Handle

/-- The kinds of program units. -/
inductive Kind where
  | project
  | package
  | file
  | type
  | method
  | field
  /-- A type known only as the target of a dependency. -/
  | external
deriving DecidableEq

namespace Kind

/-- All kinds. -/
def all : List Kind := [project, package, file, type, method, field, external]

/-- The name of a kind. -/
def name : Kind → String
  | project => "project"
  | package => "package"
  | file => "file"
  | type => "type"
  | method => "method"
  | field => "field"
  | external => "external"

/-- The kind of a name. -/
def ofName? (s : String) : Option Kind :=
  all.find? (·.name == s)

/-- The position of a kind in the list of all kinds. -/
def rank : Kind → Nat
  | project => 0
  | package => 1
  | file => 2
  | type => 3
  | method => 4
  | field => 5
  | external => 6

/-- Kinds are ordered by their positions. -/
instance : Ord Kind := ⟨compareOn rank⟩

instance : Std.TransOrd Kind := inferInstanceAs (Std.TransCmp (compareOn rank))

theorem rank_injective {a b : Kind} (h : a.rank = b.rank) : a = b := by
  cases a <;> cases b <;> simp_all [rank]

instance : Std.LawfulEqOrd Kind where
  compare_self := Std.ReflOrd.compare_self (α := Nat)
  eq_of_compare h := rank_injective (Std.LawfulEqOrd.eq_of_compare (α := Nat) h)

/-- The kinds whose elements may depend on each other. -/
def isTypeLevel : Kind → Bool
  | type | external => true
  | _ => false

/-- The kinds owned by a type. -/
def isMember : Kind → Bool
  | method | field => true
  | _ => false

end Kind

/-- One program unit. -/
structure Element where
  handle : Handle
  key : String
  kind : Kind
  /-- The element that owns this one. -/
  parent : Option Handle := none
  /-- The elements owned by this one, in the order in which they were linked to it. -/
  children : List Handle := []
  /-- The measures by name. -/
  measures : Std.ExtTreeMap String Measure := ∅

namespace Element

/-- Whether the element stands for a type outside the analysed code. -/
def isExternal (e : Element) : Bool := e.kind == .external

/-- The measure of a name. -/
def measure? (e : Element) (name : String) : Option Measure := e.measures[name]?

/-- The measure of a metric. -/
def metric? (e : Element) (metric : Metric) : Option Measure := e.measure? metric.name

/-- The numeric value of a metric. -/
def value? (e : Element) (metric : Metric) : Option Float :=
  (e.metric? metric).bind Measure.value?

/-- Attaches a measure; an earlier one of the same name is replaced. -/
def attach (e : Element) (name : String) (value : Measure) : Element :=
  { e with measures := e.measures.insert name value }

end Element

end CodeMetrics
