import CodeMetrics.Proofs.Index.Coherence
import CodeMetrics.Proofs.Chain
import Mathlib.Order.WellFounded

/-!
# Ownership is a forest

Each element names its owner and each owner lists its children.  `Index.Forest` says that the two
agree and that no chain of owners goes on forever, so that no element owns itself, directly or
through others.

A link is made only where the new owner is not owned by the child.  That is decided by a walk along
the owners, which is bounded by the number of elements.  The bound is enough **because** the owners
form a forest: a walk that meets no element twice has fewer hops than there are elements.  The
invariant and the check that keeps it therefore rest on each other, and `isWithin_iff` is the place
where the circle closes.
-/

namespace CodeMetrics

namespace Index

/-! ## Walks along the owners -/

/-- The element that is reached by a number of hops along the owners. -/
def climb (ix : Index) : Nat → Handle → Option Handle
  | 0, h => some h
  | n + 1, h => (ix.parent? h).bind (ix.climb n)

section Climb

variable (ix : Index)

theorem climb_succ (n : Nat) (h : Handle) :
    ix.climb (n + 1) h = (ix.parent? h).bind (ix.climb n) := rfl

/-- Climbing along the owners is the general walk along a partial function. -/
theorem climb_eq_ascend (n : Nat) (h : Handle) : ix.climb n h = ascend ix.parent? n h := by
  induction n generalizing h with
  | zero => rfl
  | succ n ih =>
      rw [climb_succ, ascend_succ]
      cases ix.parent? h with
      | none => rfl
      | some owner => exact ih owner

theorem meets_zero (ancestor node : Handle) : ix.meets ancestor 0 node = (node == ancestor) := by
  unfold meets
  simp

/-- A walk meets the ancestor at the element it starts from, or later on from its owner. -/
theorem meets_succ (ancestor : Handle) (hops : Nat) (node : Handle) :
    ix.meets ancestor (hops + 1) node =
      (node == ancestor || (ix.parent? node).any (ix.meets ancestor hops)) := by
  rw [meets.eq_def]
  cases owned : ix.parent? node <;> simp [owned]

/-- The bounded walk of the model meets exactly what can be reached within the bound.  It stops
early where it meets the ancestor, and where there is no further owner. -/
theorem meets_iff (ancestor : Handle) (hops : Nat) (node : Handle) :
    ix.meets ancestor hops node = true ↔ ∃ n ≤ hops, ix.climb n node = some ancestor := by
  induction hops generalizing node with
  | zero =>
      rw [meets_zero, beq_iff_eq]
      constructor
      · rintro rfl
        exact ⟨0, Nat.le_refl 0, rfl⟩
      · rintro ⟨n, bound, reached⟩
        obtain rfl := Nat.le_zero.mp bound
        exact Option.some.inj reached
  | succ hops ih =>
      rw [meets_succ, Bool.or_eq_true, beq_iff_eq, Option.any_eq_true]
      constructor
      · rintro (rfl | ⟨owner, owned, met⟩)
        · exact ⟨0, Nat.zero_le _, rfl⟩
        · obtain ⟨n, bound, reached⟩ := (ih owner).mp met
          exact ⟨n + 1, Nat.succ_le_succ bound, by rw [climb_succ, owned]; exact reached⟩
      · rintro ⟨n, bound, reached⟩
        cases n with
        | zero => exact .inl (Option.some.inj reached)
        | succ n =>
            rw [climb_succ, Option.bind_eq_some_iff] at reached
            obtain ⟨owner, owned, reached⟩ := reached
            exact .inr ⟨owner, owned, (ih owner).mpr ⟨n, Nat.le_of_succ_le_succ bound, reached⟩⟩

/-- What is reached by climbing owns the element, directly or through others. -/
theorem within_of_climb {n : Nat} {node ancestor : Handle}
    (reached : ix.climb n node = some ancestor) : ix.Within node ancestor := by
  induction n generalizing node with
  | zero =>
      obtain rfl := Option.some.inj reached
      exact .refl
  | succ n ih =>
      rw [climb_succ, Option.bind_eq_some_iff] at reached
      obtain ⟨owner, owned, reached⟩ := reached
      exact (ih reached).tail owned

/-- Ownership through others is reached by climbing a number of steps. -/
theorem within_iff_climb {node ancestor : Handle} :
    ix.Within node ancestor ↔ ∃ n, ix.climb n node = some ancestor := by
  constructor
  · intro within
    induction within with
    | refl => exact ⟨0, rfl⟩
    | @tail _ child _ owned ih =>
        obtain ⟨n, reached⟩ := ih
        exact ⟨n + 1, by rw [climb_succ, owned]; exact reached⟩
  · rintro ⟨n, reached⟩
    exact ix.within_of_climb reached

end Climb

/-! ## Forests -/

/-- Owners and children agree, and no chain of owners goes on forever. -/
structure Forest (ix : Index) : Prop where
  owner_known : ∀ {child owner : Handle}, ix.parent? child = some owner → ix.Knows owner
  count_children : ∀ owner child : Handle,
    (ix.childrenOf owner).count child = if ix.parent? child = some owner then 1 else 0
  grounded : WellFounded ix.Owns

namespace Forest

variable {ix : Index}

/-- In a forest children and owners agree: an element is listed exactly by its owner. -/
theorem mem_childrenOf_iff (forest : ix.Forest) {owner child : Handle} :
    child ∈ ix.childrenOf owner ↔ ix.parent? child = some owner := by
  rw [← List.count_pos_iff, forest.count_children]
  split <;> simp_all

/-- No owner lists a child twice. -/
theorem nodup_childrenOf (forest : ix.Forest) (owner : Handle) : (ix.childrenOf owner).Nodup := by
  rw [List.nodup_iff_count_le_one]
  intro child
  rw [forest.count_children]
  split <;> simp

/-- No element is reached from itself by one hop or more. -/
theorem climb_ne_self (forest : ix.Forest) {n : Nat} {h : Handle} :
    ix.climb (n + 1) h ≠ some h := by
  intro returned
  rw [climb_succ, Option.bind_eq_some_iff] at returned
  obtain ⟨owner, owned, returned⟩ := returned
  have cycle : Relation.TransGen ix.Owns h h :=
    Relation.TransGen.tail' (ix.within_of_climb returned) owned
  exact forest.grounded.transGen.irrefl.irrefl h cycle

/-- Climbing from an element leads to elements only, so a walk never has to look at a handle that is
out of range. -/
theorem knows_of_climb (forest : ix.Forest) {n : Nat} {h top : Handle} (known : ix.Knows h)
    (reached : ix.climb n h = some top) : ix.Knows top := by
  induction n generalizing h with
  | zero =>
      obtain rfl := Option.some.inj reached
      exact known
  | succ n ih =>
      rw [climb_succ, Option.bind_eq_some_iff] at reached
      obtain ⟨owner, owned, reached⟩ := reached
      exact ih (forest.owner_known owned) reached

/-- A walk along the owners has fewer hops than there are elements.  Otherwise it would meet some
element twice, and that element would own itself. -/
theorem climb_lt_size (forest : ix.Forest) {n : Nat} {h top : Handle} (known : ix.Knows h)
    (reached : ix.climb n h = some top) : n < ix.size := by
  by_contra long
  rw [climb_eq_ascend] at reached
  -- the elements are told apart by their slots, and there are as many slots as elements
  let elements := (Finset.range ix.size).image Handle.mk
  have few : elements.card ≤ n :=
    Finset.card_image_le.trans (by simpa using Nat.le_of_not_lt long)
  have inside : ∀ m ≤ n, ∃ x ∈ elements, ascend ix.parent? m h = some x := by
    intro m shorter
    obtain ⟨x, met⟩ := exists_ascend_of_le reached shorter
    have slot : x.slot < ix.size := forest.knows_of_climb known ((ix.climb_eq_ascend m h).trans met)
    exact ⟨x, Finset.mem_image.mpr ⟨x.slot, Finset.mem_range.mpr slot, rfl⟩, met⟩
  obtain ⟨i, j, x, before, first, second⟩ := repeats_of_card_le few inside
  obtain ⟨k, rfl⟩ := Nat.exists_eq_add_of_lt before
  rw [Nat.add_assoc, ascend_add, first, Option.bind_some, ← climb_eq_ascend] at second
  exact forest.climb_ne_self second

/-- The bounded walk decides ownership. -/
theorem isWithin_iff (forest : ix.Forest) {node ancestor : Handle} (known : ix.Knows node) :
    ix.isWithin node ancestor = true ↔ ix.Within node ancestor := by
  rw [isWithin, meets_iff, within_iff_climb]
  constructor
  · rintro ⟨n, -, reached⟩
    exact ⟨n, reached⟩
  · rintro ⟨n, reached⟩
    exact ⟨n, Nat.le_of_lt (forest.climb_lt_size known reached), reached⟩

/-- Every chain of owners ends at an element without owner. -/
theorem exists_root (forest : ix.Forest) {h : Handle} (known : ix.Knows h) :
    ∃ root, ix.Within h root ∧ ix.Knows root ∧ ix.parent? root = none := by
  induction h using forest.grounded.induction with
  | _ h ih =>
      cases owned : ix.parent? h with
      | none => exact ⟨h, .refl, known, owned⟩
      | some owner =>
          obtain ⟨root, within, knownRoot, orphan⟩ := ih owner owned (forest.owner_known owned)
          exact ⟨root, within.tail owned, knownRoot, orphan⟩

/-! ## The elementary changes -/

/-- A change that keeps owners, children and known handles keeps the forest.  Keys, kinds and
measures play no part in it. -/
theorem congr {ix' : Index} (forest : ix.Forest) (parents : ∀ h, ix'.parent? h = ix.parent? h)
    (children : ∀ h, ix'.childrenOf h = ix.childrenOf h) (grows : ∀ h, ix.Knows h → ix'.Knows h) :
    ix'.Forest where
  owner_known owned := grows _ (forest.owner_known (by rw [← parents]; exact owned))
  count_children owner child := by
    rw [children, parents]
    exact forest.count_children owner child
  grounded := by
    have same : ix'.Owns = ix.Owns := by
      funext owner child
      rw [Owns, Owns, parents]
    rw [same]
    exact forest.grounded

/-- An index without elements is a forest. -/
theorem empty : Forest {} where
  owner_known owned := by simp [parent?, get?] at owned
  count_children owner child := by simp [childrenOf, parent?, get?]
  grounded := ⟨fun h => ⟨h, fun owner owned => by simp [Owns, parent?, get?] at owned⟩⟩

/-- A new element is a tree of its own. -/
theorem insert (forest : ix.Forest) (key : String) (kind : Kind) :
    (ix.insert key kind).2.Forest :=
  forest.congr (parent?_insert ix key kind) (childrenOf_insert ix key kind) fun h known =>
    (knows_insert ix key kind h).mpr (.inl known)

/-- A promotion leaves the forest as it is, because it is about a kind. -/
theorem promote (forest : ix.Forest) (g : Handle) : (ix.promote g).Forest :=
  forest.congr (parent?_promote ix g) (childrenOf_promote ix g) fun h known => by
    rw [Knows, size_promote]
    exact known

/-- Measures do not belong to the forest. -/
theorem measured (forest : ix.Forest) (g : Handle) (name : String) (value : Measure) :
    (ix.measured g name value).Forest :=
  forest.congr (fun h => parent?_measured ix g h name value)
    (fun h => childrenOf_measured ix g h name value) fun h known => by
      rw [Knows, size_measured]
      exact known

section Link

variable {owner child : Handle}

/-- After a link the child has its new owner, and all other elements have theirs. -/
theorem owns_link (known : ix.Knows child) {a b : Handle} :
    (ix.link owner child).Owns a b ↔ b = child ∧ a = owner ∨ b ≠ child ∧ ix.Owns a b := by
  by_cases same : b = child
  · subst same
    simp [Owns, parent?_link_self ix owner b known, eq_comm]
  · simp [Owns, parent?_link_of_ne ix owner child b same, same]

/-- A new link starts no endless chain.  Elements outside the child's part of the forest keep their
chains, so the owner's chain still ends; then so does the child's, and every chain through it. -/
theorem grounded_link (forest : ix.Forest) (known : ix.Knows child)
    (apart : ¬ ix.Within owner child) : WellFounded (ix.link owner child).Owns := by
  have outside : ∀ x, ¬ ix.Within x child → Acc (ix.link owner child).Owns x := by
    intro x
    induction x using forest.grounded.induction with
    | _ x ih =>
        intro away
        refine ⟨x, fun y owned => ?_⟩
        rcases (owns_link known).mp owned with ⟨rfl, -⟩ | ⟨-, owned⟩
        · exact absurd .refl away
        · exact ih y owned fun within => away (within.tail owned)
  refine ⟨fun x => ?_⟩
  induction x using forest.grounded.induction with
  | _ x ih =>
      refine ⟨x, fun y owned => ?_⟩
      rcases (owns_link known).mp owned with ⟨-, rfl⟩ | ⟨-, owned⟩
      · exact outside y apart
      · exact ih y owned

/-- Linking an orphan to an owner outside its own tree keeps the forest.  If the owner lay below the
orphan, a cycle would come about. -/
theorem link (forest : ix.Forest) (ownerKnown : ix.Knows owner) (childKnown : ix.Knows child)
    (orphan : ix.parent? child = none) (apart : ¬ ix.Within owner child) :
    (ix.link owner child).Forest where
  owner_known {c p} owned := by
    rw [Knows, size_link]
    by_cases same : c = child
    · rw [same, parent?_link_self ix owner child childKnown, Option.some.injEq] at owned
      rw [← owned]
      exact ownerKnown
    · rw [parent?_link_of_ne ix owner child c same] at owned
      exact forest.owner_known owned
  count_children p c := by
    -- no count changes but the one of the child at its owner, which was zero
    have before := forest.count_children p c
    by_cases sameOwner : p = owner
    · subst sameOwner
      rw [childrenOf_link_self ix p child ownerKnown, List.count_append, before]
      by_cases sameChild : c = child
      · subst sameChild
        rw [parent?_link_self ix p c childKnown, orphan]
        simp
      · rw [parent?_link_of_ne ix p child c sameChild]
        simp [Ne.symm sameChild]
    · rw [childrenOf_link_of_ne ix owner child p sameOwner, before]
      by_cases sameChild : c = child
      · subst sameChild
        rw [parent?_link_self ix owner c childKnown, orphan]
        simp [Ne.symm sameOwner]
      · rw [parent?_link_of_ne ix owner child c sameChild]
  grounded := forest.grounded_link childKnown apart

end Link

/-- Every elementary change keeps ownership a forest. -/
theorem move (forest : ix.Forest) {ix' : Index} (step : ix.Move ix') : ix'.Forest := by
  cases step with
  | insert _ => exact forest.insert _ _
  | promote _ => exact forest.promote _
  | link ownerKnown childKnown orphan apart =>
      exact forest.link ownerKnown childKnown orphan apart
  | attach _ => exact forest.measured _ _ _

end Forest

end Index

end CodeMetrics
