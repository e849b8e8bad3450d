import CodeMetrics.Findings

/-!
# Depth of inheritance and number of children

Both metrics are read off the recorded superclasses, which are gathered into a hierarchy first.  A
type that extends itself has a superclass, but it is not one of its own children.

The depth of a type is the number of hops to the end of its superclass chain.  A chain may run into
a loop.  The walk along it keeps the set of the types that it has visited, and stops with a cycle
when it comes to one of them again.  Since every hop leads to a type that is recorded as a superclass
and was not visited before, the walk ends.
-/

namespace CodeMetrics

/-- The hierarchy of the types whose superclass is recorded. -/
structure Inheritance where
  /-- The superclass of each type that has one. -/
  parents : Std.ExtTreeMap Handle Handle := ∅
  /-- The other types that extend a type directly. -/
  children : Std.ExtTreeMap Handle (List Handle) := ∅
deriving DecidableEq

namespace Inheritance

/-- Enters the record of a type.  A root has no superclass to enter. -/
def enter (i : Inheritance) (record : Handle × Option Handle) : Inheritance :=
  match record with
  | (_, none) => i
  | (h, some above) =>
    { parents := i.parents.insert h above
      children :=
        if above = h then i.children
        else i.children.insert above (i.children.getD above [] ++ [h]) }

/-- The hierarchy of a list of records, which are entered one after the other. -/
def ofRecords (records : List (Handle × Option Handle)) : Inheritance :=
  records.foldl enter {}

/-- The superclass of a type. -/
def superclass? (i : Inheritance) (h : Handle) : Option Handle := i.parents[h]?

/-- The recorded superclasses that a walk has not visited. -/
def unvisited (i : Inheritance) (visited : Std.ExtTreeSet Handle) : List Handle :=
  (i.parents.toList.map Prod.snd).filter (· ∉ visited)

/-- A superclass that is visited for the first time is one less to visit. -/
theorem length_unvisited_insert {i : Inheritance} {visited : Std.ExtTreeSet Handle}
    {h above : Handle} (parent : i.superclass? h = some above) (fresh : above ∉ visited) :
    (i.unvisited (visited.insert above)).length < (i.unvisited visited).length := by
  have left : i.unvisited (visited.insert above) =
      (i.unvisited visited).filter (· ≠ above) := by
    unfold unvisited
    rw [List.filter_filter]
    refine List.filter_congr fun x _ => ?_
    rw [← Bool.decide_and, decide_eq_decide, Std.ExtTreeSet.mem_insert,
      Std.LawfulEqOrd.compare_eq_iff_eq, not_or, eq_comm, ne_eq]
  have listed : above ∈ i.unvisited visited := by
    refine List.mem_filter.mpr ⟨List.mem_map.mpr ⟨(h, above), ?_, rfl⟩, decide_eq_true fresh⟩
    exact Std.ExtTreeMap.mem_toList_iff_getElem?_eq_some.mpr parent
  rw [left, List.length_filter_lt_length_iff_exists]
  exact ⟨above, listed, by simp⟩

/-- The rest of a walk that has come to `current` after `hops` hops. -/
def walk (i : Inheritance) (visited : Std.ExtTreeSet Handle) (current : Handle) (hops : Nat) :
    Measure :=
  match parent : i.superclass? current with
  | none => .ofCount hops
  | some above =>
    if met : above ∈ visited then .cycle
    else i.walk (visited.insert above) above (hops + 1)
termination_by (i.unvisited visited).length
decreasing_by exact length_unvisited_insert parent met

/-- The depth of a type. -/
def depth (i : Inheritance) (h : Handle) : Measure :=
  i.walk ((∅ : Std.ExtTreeSet Handle).insert h) h 0

/-- The number of other types whose superclass is `h`. -/
def childCount (i : Inheritance) (h : Handle) : Nat :=
  (i.children.getD h []).length

end Inheritance

namespace Findings

/-- The hierarchy of the superclasses recorded so far. -/
def inheritance (f : Findings) : Inheritance := .ofRecords f.superclasses.toList

/-- Attaches the depth of one type, with a warning if its chain never ends. -/
def attachDepth (i : Inheritance) (f : Findings) (e : Element) : Except IndexError Findings :=
  let depth := i.depth e.handle
  let f := if depth.isFault then f.say .warn s!"Inheritance cycle through {e.key}" else f
  f.attachMetric e.handle .dit depth

/-- Attaches the depth of inheritance to every type and every placeholder. -/
def attachDepths (f : Findings) (i : Inheritance) : Except IndexError Findings := do
  let f ← f.index.typeLevel.foldlM (attachDepth i) f
  return f.say .debug "DIT computed"

/-- Attaches the number of children to every type and every placeholder. -/
def attachChildCounts (f : Findings) (i : Inheritance) : Except IndexError Findings := do
  let f ← f.index.typeLevel.foldlM
    (fun f e => f.attachMetric e.handle .noc (.ofCount (i.childCount e.handle))) f
  return f.say .debug "NOC computed"

end Findings

end CodeMetrics
