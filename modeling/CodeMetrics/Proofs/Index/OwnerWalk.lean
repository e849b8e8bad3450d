import CodeMetrics.Proofs.Index.History

/-!
# The walk along the owners

Whether an element is owned by another is found by going from owner to owner.  In itself this walk
has no bound: it would go round a circle forever, and it would be stuck at a handle that belongs to
no element.  `Index.Walks` describes it so, turn by turn, and holds only of walks that end.

In a forest every walk ends, and by then it has passed no element twice, so that it has had at most
as many turns as there are elements.  The budget of `Index.isWithin` is therefore no part of its
answer: it gives what the walk without a budget ends with.
-/

namespace CodeMetrics

namespace Index

variable {ix : Index} {ancestor node : Handle} {current : Option Handle} {turns turns' hops : Nat}
  {answer answer' : Bool}

/-- In search of `ancestor`, the walk that is at `current` ends after a number of turns, with an
answer.  A turn looks at one element. -/
inductive Walks (ix : Index) (ancestor : Handle) : Option Handle → Nat → Bool → Prop where
  /-- There is no owner left. -/
  | ended : Walks ix ancestor none 0 false
  | met : Walks ix ancestor (some ancestor) 1 true
  /-- The walk goes on with the owner of an element that is not the one in search. -/
  | passed {node : Handle} {e : Element} {turns : Nat} {answer : Bool} (other : node ≠ ancestor)
      (found : ix.get? node = some e) (onward : Walks ix ancestor e.parent turns answer) :
      Walks ix ancestor (some node) (turns + 1) answer

namespace Walks

/-- A walk ends in one way, after one number of turns.  Each turn is decided by the handle that the
walk has come to. -/
theorem unique (first : ix.Walks ancestor current turns answer)
    (second : ix.Walks ancestor current turns' answer') : turns = turns' ∧ answer = answer' := by
  induction first generalizing turns' answer' with
  | ended =>
      cases second
      exact ⟨rfl, rfl⟩
  | met =>
      cases second with
      | met => exact ⟨rfl, rfl⟩
      | passed other _ _ => exact absurd rfl other
  | passed other found _ ih =>
      cases second with
      | met => exact absurd rfl other
      | passed _ found' onward =>
          obtain rfl := Option.some.inj (found.symm.trans found')
          obtain ⟨rfl, rfl⟩ := ih onward
          exact ⟨rfl, rfl⟩

/-- The last turn is at an element that is one hop fewer away than there are turns. -/
theorem exists_climb (walks : ix.Walks ancestor current turns answer) (start : current = some node) :
    ∃ n top, turns = n + 1 ∧ ix.climb n node = some top := by
  induction walks generalizing node with
  | ended => cases start
  | met => exact ⟨0, node, rfl, rfl⟩
  | @passed here e turns answer other found onward ih =>
      obtain rfl := Option.some.inj start
      cases owned : e.parent with
      | none =>
          rw [owned] at onward
          cases onward
          exact ⟨0, here, rfl, rfl⟩
      | some owner =>
          obtain ⟨n, top, rfl, reached⟩ := ih owned
          refine ⟨n + 1, top, rfl, ?_⟩
          rw [climb_succ, parent?_of_get? found, owned]
          exact reached

/-- Any budget that is enough for the turns gives the answer of the walk.  The induction is on the
walk, and each turn of it uses up one hop. -/
theorem any_meets (walks : ix.Walks ancestor current turns answer) (enough : turns ≤ hops + 1) :
    current.any (ix.meets ancestor hops) = answer := by
  induction walks generalizing hops with
  | ended => rfl
  | met =>
      cases hops with
      | zero => simp [meets_zero]
      | succ hops => simp [meets_succ]
  | @passed node e turns answer other found onward ih =>
      rw [Option.any_some]
      cases hops with
      | zero =>
          -- there is one turn only, so the walk ends here
          clear ih
          generalize e.parent = next at onward
          cases onward with
          | ended => simpa [meets_zero] using other
          | met => omega
          | passed _ _ _ => omega
      | succ hops =>
          rw [meets_succ, parent?_of_get? found, ih (Nat.le_of_succ_le_succ enough)]
          simp [other]

end Walks

namespace Forest

/-- Every walk from an element ends, because owners form a forest: along them there is no way back.
-/
theorem exists_walks (forest : ix.Forest) (ancestor : Handle) (known : ix.Knows node) :
    ∃ turns answer, ix.Walks ancestor (some node) turns answer := by
  induction node using forest.grounded.induction with
  | _ node ih =>
      by_cases same : node = ancestor
      · rw [same]
        exact ⟨1, true, .met⟩
      · obtain ⟨e, found⟩ := knows_iff_get?.mp known
        cases owned : e.parent with
        | none => exact ⟨1, false, .passed same found (owned ▸ .ended)⟩
        | some owner =>
            have owns : ix.parent? node = some owner := by rw [parent?_of_get? found, owned]
            obtain ⟨turns, answer, onward⟩ := ih owner owns (forest.owner_known owns)
            exact ⟨turns + 1, answer, .passed same found (owned ▸ onward)⟩

/-- No walk has more turns than there are elements. -/
theorem turns_le_size (forest : ix.Forest) (known : ix.Knows node)
    (walks : ix.Walks ancestor (some node) turns answer) : turns ≤ ix.size := by
  obtain ⟨n, top, rfl, reached⟩ := walks.exists_climb rfl
  exact forest.climb_lt_size known reached

/-- The walk on a budget gives the answer of the walk without one. -/
theorem isWithin_eq (forest : ix.Forest) (known : ix.Knows node)
    (walks : ix.Walks ancestor (some node) turns answer) : ix.isWithin node ancestor = answer :=
  walks.any_meets (Nat.le_succ_of_le (forest.turns_le_size known walks))

end Forest

/-- Owners are reached from below as children are from above. -/
theorem within_iff_eq_or_transGen :
    ix.Within node ancestor ↔
      ancestor = node ∨
        Relation.TransGen (fun child owner => ix.parent? child = some owner) node ancestor := by
  rw [Within, Relation.reflTransGen_iff_eq_or_transGen, ← Relation.transGen_swap, eq_comm]
  rfl

end Index

namespace Model

open CodeMetrics.Index

/-- **The walk along the owners ends and decides ownership**, after any changes.  From every element
and in search of any handle it ends in exactly one way: after at most as many turns as there are
elements, and with the answer of `Index.isWithin`.  The answer is true exactly if the handle is the
element itself or is reached from it by going from owner to owner. -/
theorem owner_walk_decides (changes : List Change) (node ancestor : Handle) :
    let ix := (({} : Model).applyAll changes).index
    node.slot < ix.size →
      (∃ turns ≤ ix.size, ix.Walks ancestor (some node) turns (ix.isWithin node ancestor) ∧
        ∀ turns' answer, ix.Walks ancestor (some node) turns' answer →
          turns' = turns ∧ answer = ix.isWithin node ancestor) ∧
        (ix.isWithin node ancestor = true ↔
          ancestor = node ∨
            Relation.TransGen (fun child owner => ix.parent? child = some owner) node ancestor) := by
  intro ix known
  have forest : ix.Forest := (applyAll_sound {} .empty changes).toForest
  constructor
  · obtain ⟨turns, answer, walks⟩ := forest.exists_walks ancestor known
    rw [forest.isWithin_eq known walks]
    exact ⟨turns, forest.turns_le_size known walks, walks, fun _ _ other => other.unique walks⟩
  · rw [forest.isWithin_iff known, within_iff_eq_or_transGen]

/-- Two types that are reported as owners of each other, where only the first report counts, and a
third below them. -/
def mutualOwners : List Change :=
  [.register "a/X" .type (some "a/Y"), .register "a/Y" .type (some "a/X"),
    .register "a/C" .type (some "a/X")]

theorem owner_walk_decides_mutualOwners :
    ∃ ix : Index, (({} : Model).applyAll mutualOwners).index = ix ∧
      (∃ turns ≤ 3, ix.Walks ⟨0⟩ (some ⟨2⟩) turns true) ∧
      (∃ turns ≤ 3, ix.Walks ⟨2⟩ (some ⟨0⟩) turns false) ∧
      Relation.TransGen (fun child owner => ix.parent? child = some owner) ⟨2⟩ ⟨0⟩ := by
  obtain ⟨⟨up, few, below, -⟩, decides⟩ :=
    owner_walk_decides mutualOwners ⟨2⟩ ⟨0⟩ (by decide +kernel)
  obtain ⟨⟨up', few', above, -⟩, -⟩ :=
    owner_walk_decides mutualOwners ⟨0⟩ ⟨2⟩ (by decide +kernel)
  have size : (({} : Model).applyAll mutualOwners).index.size = 3 := by decide +kernel
  have within : (({} : Model).applyAll mutualOwners).index.isWithin ⟨2⟩ ⟨0⟩ = true := by
    decide +kernel
  have outside : (({} : Model).applyAll mutualOwners).index.isWithin ⟨0⟩ ⟨2⟩ = false := by
    decide +kernel
  generalize (({} : Model).applyAll mutualOwners).index = ix at *
  rw [size] at few few'
  rw [within] at below
  rw [outside] at above
  exact ⟨ix, rfl, ⟨up, few, below⟩, ⟨up', few', above⟩,
    (decides.mp within).resolve_left (by decide)⟩

end Model

end CodeMetrics
