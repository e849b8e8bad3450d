import Mathlib.Data.Finset.Card
import Mathlib.Tactic.WLOG

/-!
# Chains

Owners and superclasses are both followed hop by hop, from one element to the next, until there is
none.  A chain ends after some number of hops, or it is endless.  Where all the elements that it
passes are in a finite set, an endless chain is one that passes some element twice.
-/

namespace CodeMetrics

variable {α : Type} {above : α → Option α} {x y : α} {m n : Nat}

/-- The element that is reached from `x` by a number of hops. -/
def ascend (above : α → Option α) : Nat → α → Option α
  | 0, x => some x
  | n + 1, x => (above x).bind (ascend above n)

theorem ascend_succ (above : α → Option α) (n : Nat) (x : α) :
    ascend above (n + 1) x = (above x).bind (ascend above n) := rfl

theorem ascend_add (above : α → Option α) (m n : Nat) (x : α) :
    ascend above (m + n) x = (ascend above m x).bind (ascend above n) := by
  induction m generalizing x with
  | zero => simp [ascend]
  | succ m ih =>
      rw [Nat.succ_add, ascend_succ, ascend_succ]
      cases above x with
      | none => rfl
      | some next => exact ih next

/-- Every shorter walk reaches an element as well. -/
theorem exists_ascend_of_le (reached : ascend above n x = some y) (shorter : m ≤ n) :
    ∃ z, ascend above m x = some z := by
  obtain ⟨rest, rfl⟩ := Nat.exists_eq_add_of_le shorter
  rw [ascend_add, Option.bind_eq_some_iff] at reached
  obtain ⟨z, reached, -⟩ := reached
  exact ⟨z, reached⟩

/-- The chain from `x` ends after `n` hops. -/
def EndsAfter (above : α → Option α) (x : α) (n : Nat) : Prop :=
  ∃ top, ascend above n x = some top ∧ above top = none

/-- The chain from `x` never ends. -/
def Endless (above : α → Option α) (x : α) : Prop :=
  ∀ n, ∃ y, ascend above n x = some y

/-- The chain from `x` passes some element twice. -/
def Repeats (above : α → Option α) (x : α) : Prop :=
  ∃ m n y, m < n ∧ ascend above m x = some y ∧ ascend above n x = some y

theorem endsAfter_zero : EndsAfter above x 0 ↔ above x = none := by
  simp [EndsAfter, ascend]

theorem endsAfter_succ_of_some (next : above x = some y) :
    EndsAfter above x (n + 1) ↔ EndsAfter above y n := by
  simp [EndsAfter, ascend_succ, next]

theorem endless_iff_of_some (next : above x = some y) : Endless above x ↔ Endless above y := by
  constructor
  · intro endless n
    simpa [ascend_succ, next] using endless (n + 1)
  · intro endless n
    cases n with
    | zero => exact ⟨x, rfl⟩
    | succ n => simpa [ascend_succ, next] using endless n

/-- The hop after the last one leads nowhere. -/
theorem EndsAfter.ascend_succ_eq_none (ends : EndsAfter above x n) :
    ascend above (n + 1) x = none := by
  obtain ⟨top, reached, last⟩ := ends
  rw [ascend_add, reached]
  simp [ascend, last]

theorem EndsAfter.not_endless (ends : EndsAfter above x n) : ¬Endless above x := by
  intro endless
  obtain ⟨y, reached⟩ := endless (n + 1)
  rw [ends.ascend_succ_eq_none] at reached
  cases reached

theorem EndsAfter.unique (ends : EndsAfter above x m) (ends' : EndsAfter above x n) : m = n := by
  -- the earlier of two ends would leave no way to the later one
  have later : ∀ {m n}, EndsAfter above x m → EndsAfter above x n → n ≤ m := by
    intro m n ends ends'
    obtain ⟨top, reached, -⟩ := ends'
    by_contra short
    obtain ⟨y, onward⟩ := exists_ascend_of_le reached (Nat.succ_le_of_lt (Nat.lt_of_not_le short))
    rw [Nat.succ_eq_add_one, ends.ascend_succ_eq_none] at onward
    cases onward
  exact Nat.le_antisymm (later ends' ends) (later ends ends')

/-- A walk either goes all the way or meets the end of the chain before. -/
theorem exists_ascend_or_endsAfter (above : α → Option α) (x : α) (n : Nat) :
    (∃ y, ascend above n x = some y) ∨ ∃ m < n, EndsAfter above x m := by
  induction n with
  | zero => exact .inl ⟨x, rfl⟩
  | succ n ih =>
      rcases ih with ⟨y, reached⟩ | ⟨m, before, ends⟩
      · cases next : above y with
        | none => exact .inr ⟨n, Nat.lt_succ_self n, y, reached, next⟩
        | some z =>
            refine .inl ⟨z, ?_⟩
            rw [ascend_add, reached]
            simp [ascend, next]
      · exact .inr ⟨m, Nat.lt_succ_of_lt before, ends⟩

theorem endless_or_endsAfter (above : α → Option α) (x : α) :
    Endless above x ∨ ∃ n, EndsAfter above x n := by
  by_cases ends : ∃ n, EndsAfter above x n
  · exact .inr ends
  · refine .inl fun n => ?_
    rcases exists_ascend_or_endsAfter above x n with reached | ⟨m, -, early⟩
    · exact reached
    · exact absurd ⟨m, early⟩ ends

/-- A chain that passes an element twice comes back to it again and again, because the way from an
element on is always the same. -/
theorem Repeats.endless (repeats : Repeats above x) : Endless above x := by
  obtain ⟨m, n, y, before, first, second⟩ := repeats
  obtain ⟨k, rfl⟩ := Nat.exists_eq_add_of_lt before
  rw [Nat.add_assoc, ascend_add, first, Option.bind_some] at second
  have rounds : ∀ r, ascend above (m + r * (k + 1)) x = some y := by
    intro r
    induction r with
    | zero => simpa using first
    | succ r ih =>
        rw [Nat.succ_mul, ← Nat.add_assoc, ascend_add, ih]
        exact second
  intro n
  refine exists_ascend_of_le (rounds n) ?_
  calc n ≤ n * (k + 1) := Nat.le_mul_of_pos_right n k.succ_pos
    _ ≤ m + n * (k + 1) := Nat.le_add_left _ _

/-- A walk of as many hops as there are elements to pass passes one of them twice. -/
theorem repeats_of_card_le {met : Finset α} (long : met.card ≤ n)
    (inside : ∀ m ≤ n, ∃ y ∈ met, ascend above m x = some y) : Repeats above x := by
  have passes : ∀ m ∈ Finset.range (n + 1), (ascend above m x).getD x ∈ met := by
    intro m bound
    obtain ⟨y, listed, reached⟩ := inside m (Finset.mem_range_succ_iff.mp bound)
    rwa [reached]
  have crowded : met.card < (Finset.range (n + 1)).card := by
    rw [Finset.card_range]
    omega
  obtain ⟨i, hi, j, hj, different, collision⟩ :=
    Finset.exists_ne_map_eq_of_card_lt_of_maps_to crowded passes
  wlog before : i < j generalizing i j
  · exact this j hj i hi different.symm collision.symm (by omega)
  obtain ⟨y, -, first⟩ := inside i (Finset.mem_range_succ_iff.mp hi)
  obtain ⟨z, -, second⟩ := inside j (Finset.mem_range_succ_iff.mp hj)
  have same : y = z := by simpa [first, second] using collision
  exact ⟨i, j, y, before, first, same ▸ second⟩

end CodeMetrics
