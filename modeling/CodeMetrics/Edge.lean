import CodeMetrics.Element

/-!
# Dependencies between types

An edge says that one type depends on another in one way, and how many times this was found.
-/

namespace CodeMetrics

/-- The ways in which a type depends on another. -/
inductive EdgeKind where
  /-- The source is a subclass of the target. -/
  | extension
  /-- The source implements the target. -/
  | implementation
  /-- A method of the source calls a method of the target. -/
  | call
  /-- A method of the source uses a field of the target. -/
  | fieldUse
deriving DecidableEq

namespace EdgeKind

/-- All kinds of dependency. -/
def all : List EdgeKind := [extension, implementation, call, fieldUse]

/-- The name of a kind of dependency. -/
def name : EdgeKind → String
  | extension => "extends"
  | implementation => "implements"
  | call => "calls"
  | fieldUse => "references_field"

/-- The kind of dependency of a name. -/
def ofName? (s : String) : Option EdgeKind :=
  all.find? (·.name == s)

/-- The position of a kind in the list of all kinds. -/
def rank : EdgeKind → Nat
  | extension => 0
  | implementation => 1
  | call => 2
  | fieldUse => 3

theorem rank_injective {a b : EdgeKind} (h : a.rank = b.rank) : a = b := by
  cases a <;> cases b <;> simp_all [rank]

end EdgeKind

/-- The ends and the kind of a dependency. -/
abbrev Link : Type := Handle × Handle × EdgeKind

namespace Link

/-- The numbers of the ends and the position of the kind. -/
def ranks (l : Link) : List Nat := [l.1.slot, l.2.1.slot, l.2.2.rank]

/-- Links are ordered by their ends and then by their kind. -/
instance : Ord Link := ⟨compareOn ranks⟩

instance : Std.TransOrd Link := inferInstanceAs (Std.TransCmp (compareOn ranks))

theorem ranks_injective {a b : Link} (h : a.ranks = b.ranks) : a = b := by
  obtain ⟨⟨_⟩, ⟨_⟩, _⟩ := a
  obtain ⟨⟨_⟩, ⟨_⟩, _⟩ := b
  simp only [ranks, List.cons.injEq, and_true] at h
  rw [h.1, h.2.1, EdgeKind.rank_injective h.2.2]

instance : Std.LawfulEqOrd Link where
  compare_self := Std.ReflOrd.compare_self (α := List Nat)
  eq_of_compare h := ranks_injective (Std.LawfulEqOrd.eq_of_compare (α := List Nat) h)

end Link

/-- A counted dependency between two elements. -/
structure Edge where
  source : Handle
  target : Handle
  kind : EdgeKind
  /-- How many times the dependency was found. -/
  usage : UInt32 := 1
deriving DecidableEq

/-- Whether the edge starts or ends at an element. -/
def Edge.touches (e : Edge) (h : Handle) : Bool :=
  e.source == h || e.target == h

/-- A counted dependency between two keys. -/
structure KeyedEdge where
  source : String
  target : String
  kind : EdgeKind
  usage : UInt32
deriving DecidableEq

end CodeMetrics
