import CodeMetrics.Measure.Inheritance
import CodeMetrics.Proofs.Chain

/-!
# The depth of inheritance

The depth of a type is found by a walk along the recorded superclasses that stops where it has been
before.  `Inheritance.walk_cases` says what the walk decides: it comes to the end of the chain, or to
a type that the chain passes twice.  Its invariant is that the visited types are those that the chain
has passed so far (`Inheritance.Passes`), for a walk that starts with the type itself and no other.

That a chain with more hops than records passes some type twice is a matter of counting, and bounds
the depth.

The hierarchy is gathered from a table of records, whose entries come in any order.  Neither the
superclasses nor the numbers of children depend on it.
-/

namespace CodeMetrics

namespace Inheritance

variable {i : Inheritance} {h p current : Handle} {n hops : Nat} {visited : Std.ExtTreeSet Handle}

/-! ## Records -/

section Records

variable {records : List (Handle × Option Handle)}

theorem superclass?_enter (i : Inheritance) (record : Handle × Option Handle) (h : Handle) :
    (i.enter record).superclass? h =
      if record.1 = h then record.2.or (i.superclass? h) else i.superclass? h := by
  obtain ⟨type, above⟩ := record
  cases above with
  | none => simp [enter]
  | some above =>
      unfold enter superclass?
      rw [Std.ExtTreeMap.getElem?_insert]
      simp only [Std.LawfulEqOrd.compare_eq_iff_eq, Option.some_or]

/-- A type without a record has the superclass that it had before. -/
theorem superclass?_foldl_of_not_mem (other : h ∉ records.map Prod.fst) (i : Inheritance) :
    (records.foldl enter i).superclass? h = i.superclass? h := by
  induction records generalizing i with
  | nil => rfl
  | cons record rest ih =>
      rw [List.map_cons, List.mem_cons, not_or] at other
      rw [List.foldl_cons, ih other.2, superclass?_enter, if_neg (Ne.symm other.1)]

/-- Where each type has one record, its superclass is the one that is recorded. -/
theorem superclass?_ofRecords_of_mem (distinct : (records.map Prod.fst).Nodup)
    {above : Option Handle} (listed : (h, above) ∈ records) :
    (ofRecords records).superclass? h = above := by
  obtain ⟨before, after, rfl⟩ := List.append_of_mem listed
  rw [List.map_append, List.map_cons, List.nodup_append, List.nodup_cons] at distinct
  obtain ⟨-, ⟨later, -⟩, apart⟩ := distinct
  have earlier : h ∉ before.map Prod.fst := fun met => apart h met h List.mem_cons_self rfl
  rw [ofRecords, List.foldl_append, List.foldl_cons, superclass?_foldl_of_not_mem later,
    superclass?_enter, if_pos rfl, superclass?_foldl_of_not_mem earlier]
  show above.or (∅ : Std.ExtTreeMap Handle Handle)[h]? = above
  rw [Std.ExtTreeMap.getElem?_empty, Option.or_none]

/-- In whatever order the entries of a table are listed, each type has one. -/
theorem nodup_records {superclasses : Std.ExtTreeMap Handle (Option Handle)}
    (perm : records.Perm superclasses.toList) : (records.map Prod.fst).Nodup := by
  rw [(perm.map Prod.fst).nodup_iff, List.Nodup, List.pairwise_map]
  refine superclasses.distinct_keys_toList.imp ?_
  rintro a b apart same
  exact apart (same ▸ Std.ReflCmp.compare_self)

/-- The superclasses of a hierarchy are those of the table, in whatever order its entries are
listed. -/
theorem superclass?_ofRecords {superclasses : Std.ExtTreeMap Handle (Option Handle)}
    (perm : records.Perm superclasses.toList) (h : Handle) :
    (ofRecords records).superclass? h = superclasses[h]?.join := by
  have listed_iff (above : Option Handle) :
      (h, above) ∈ records ↔ superclasses[h]? = some above := by
    rw [perm.mem_iff, Std.ExtTreeMap.mem_toList_iff_getElem?_eq_some]
  cases recorded : superclasses[h]? with
  | some above =>
      exact superclass?_ofRecords_of_mem (nodup_records perm) ((listed_iff above).mpr recorded)
  | none =>
      have other : h ∉ records.map Prod.fst := by
        intro listed
        obtain ⟨⟨_, above⟩, entry, rfl⟩ := List.mem_map.mp listed
        rw [(listed_iff above).mp entry] at recorded
        cases recorded
      rw [ofRecords, superclass?_foldl_of_not_mem other]
      exact Std.ExtTreeMap.getElem?_empty

/-- A record counts for its superclass, unless the type is recorded as its own. -/
theorem childCount_enter (i : Inheritance) (record : Handle × Option Handle) (h : Handle) :
    (i.enter record).childCount h =
      i.childCount h + if record.2 = some h ∧ record.1 ≠ h then 1 else 0 := by
  obtain ⟨type, above⟩ := record
  cases above with
  | none => simp [enter]
  | some above =>
      by_cases self : above = type
      · subst self
        simp [enter, childCount]
      · simp only [enter, childCount, if_neg self, Std.ExtTreeMap.getD_insert]
        by_cases same : above = h
        · subst same
          simp [Ne.symm self]
        · simp [same]

/-- Every record of another type with this superclass is a child, in whatever order the records are
entered. -/
theorem childCount_ofRecords (records : List (Handle × Option Handle)) (h : Handle) :
    (ofRecords records).childCount h =
      records.countP fun record => record.2 == some h && record.1 != h := by
  suffices loop : ∀ i : Inheritance, (records.foldl enter i).childCount h =
      i.childCount h + records.countP fun record => record.2 == some h && record.1 != h by
    rw [ofRecords, loop]
    show ((∅ : Std.ExtTreeMap Handle (List Handle)).getD h []).length + _ = _
    rw [Std.ExtTreeMap.getD_empty, List.length_nil, Nat.zero_add]
  intro i
  induction records generalizing i with
  | nil => rfl
  | cons record rest ih =>
      rw [List.foldl_cons, ih, childCount_enter, List.countP_cons, Nat.add_assoc,
        Nat.add_comm (List.countP _ _)]
      simp

end Records

/-! ## The walk -/

/-- A walk from `h` has come to `current`, and the visited types are those that it has passed. -/
structure Passes (i : Inheritance) (h : Handle) (visited : Std.ExtTreeSet Handle)
    (current : Handle) (hops : Nat) : Prop where
  reached : ascend i.superclass? hops h = some current
  visited_iff : ∀ x, x ∈ visited ↔ ∃ m ≤ hops, ascend i.superclass? m h = some x

namespace Passes

/-- At first only the type itself is visited. -/
theorem start (i : Inheritance) (h : Handle) :
    i.Passes h ((∅ : Std.ExtTreeSet Handle).insert h) h 0 where
  reached := rfl
  visited_iff x := by
    rw [Std.ExtTreeSet.mem_insert, Std.LawfulEqOrd.compare_eq_iff_eq]
    simp [ascend]

/-- The chain goes on behind the type that is reached. -/
theorem ascend_succ (passes : i.Passes h visited current hops)
    (above : i.superclass? current = some p) : ascend i.superclass? (hops + 1) h = some p := by
  rw [ascend_add, passes.reached]
  simp [ascend, above]

/-- A hop to the superclass, which is visited then.  So the visited types are those that the walk
has passed, and the one it stands at. -/
theorem hop (passes : i.Passes h visited current hops) (above : i.superclass? current = some p) :
    i.Passes h (visited.insert p) p (hops + 1) where
  reached := passes.ascend_succ above
  visited_iff x := by
    rw [Std.ExtTreeSet.mem_insert, Std.LawfulEqOrd.compare_eq_iff_eq, passes.visited_iff]
    constructor
    · rintro (rfl | ⟨m, early, met⟩)
      · exact ⟨hops + 1, Nat.le_refl _, passes.ascend_succ above⟩
      · exact ⟨m, Nat.le_succ_of_le early, met⟩
    · rintro ⟨m, early, met⟩
      rcases Nat.lt_or_eq_of_le early with before | rfl
      · exact .inr ⟨m, Nat.le_of_lt_succ before, met⟩
      · rw [passes.ascend_succ above, Option.some.injEq] at met
        exact .inl met

/-- A superclass that is visited already is passed twice. -/
theorem repeats (passes : i.Passes h visited current hops)
    (above : i.superclass? current = some p) (met : p ∈ visited) : Repeats i.superclass? h := by
  obtain ⟨m, early, first⟩ := (passes.visited_iff p).mp met
  exact ⟨m, hops + 1, p, Nat.lt_succ_of_le early, first, passes.ascend_succ above⟩

end Passes

/-- The walk comes to the end of the chain and has counted its hops, or the chain passes some type
twice. -/
theorem walk_cases (passes : i.Passes h visited current hops) :
    (∃ n, EndsAfter i.superclass? h n ∧ i.walk visited current hops = .ofCount n) ∨
      Repeats i.superclass? h ∧ i.walk visited current hops = .cycle := by
  fun_induction walk i visited current hops with
  | case1 visited current hops ends => exact .inl ⟨hops, ⟨current, passes.reached, ends⟩, rfl⟩
  | case2 visited current hops above parent met => exact .inr ⟨passes.repeats parent met, rfl⟩
  | case3 visited current hops above parent fresh ih => exact ih (passes.hop parent)

theorem depth_cases (i : Inheritance) (h : Handle) :
    (∃ n, EndsAfter i.superclass? h n ∧ i.depth h = .ofCount n) ∨
      Repeats i.superclass? h ∧ i.depth h = .cycle :=
  walk_cases (.start i h)

theorem depth_of_endsAfter (ends : EndsAfter i.superclass? h n) : i.depth h = .ofCount n := by
  rcases i.depth_cases h with ⟨m, ends', depth⟩ | ⟨repeats, -⟩
  · rw [depth, ends'.unique ends]
  · exact absurd repeats.endless ends.not_endless

theorem depth_of_endless (endless : Endless i.superclass? h) : i.depth h = .cycle := by
  rcases i.depth_cases h with ⟨n, ends, -⟩ | ⟨-, depth⟩
  · exact absurd endless ends.not_endless
  · exact depth

theorem depth_eq_cycle_iff : i.depth h = .cycle ↔ Endless i.superclass? h := by
  constructor
  · intro looped
    rcases endless_or_endsAfter i.superclass? h with endless | ⟨n, ends⟩
    · exact endless
    · rw [depth_of_endsAfter ends] at looped
      cases looped
  · exact depth_of_endless

/-! ## Records bound the chains -/

section Bounds

variable {superclasses : Std.ExtTreeMap Handle (Option Handle)}

/-- The superclass that is recorded for a type, if any. -/
def recorded? (superclasses : Std.ExtTreeMap Handle (Option Handle)) (h : Handle) :
    Option Handle :=
  superclasses[h]?.join

/-- A type with a superclass has a record. -/
theorem mem_keys_of_recorded? (above : recorded? superclasses h = some p) :
    h ∈ superclasses.keys := by
  rw [recorded?, Option.join_eq_some_iff] at above
  rw [Std.ExtTreeMap.mem_keys]
  exact Std.ExtTreeMap.mem_iff_isSome_getElem?.mpr (by rw [above]; rfl)

/-- A walk of more hops than there are records passes some type twice: every type it leaves has a
record of its own. -/
theorem repeats_of_long {top : Handle} (long : superclasses.size < n)
    (reached : ascend (recorded? superclasses) n h = some top) :
    Repeats (recorded? superclasses) h := by
  have few : superclasses.keys.toFinset.card ≤ superclasses.size :=
    (List.toFinset_card_le _).trans_eq Std.ExtTreeMap.length_keys
  refine repeats_of_card_le few fun m shorter => ?_
  -- the walk goes on from each type that it passes, which therefore has a record
  obtain ⟨next, onward⟩ := exists_ascend_of_le reached (show m + 1 ≤ n by omega)
  rw [ascend_add, Option.bind_eq_some_iff] at onward
  obtain ⟨x, met, onward⟩ := onward
  rw [ascend_succ, Option.bind_eq_some_iff] at onward
  obtain ⟨p, above, -⟩ := onward
  exact ⟨x, List.mem_toFinset.mpr (mem_keys_of_recorded? above), met⟩

theorem endless_iff_repeats :
    Endless (recorded? superclasses) h ↔ Repeats (recorded? superclasses) h := by
  constructor
  · intro endless
    obtain ⟨top, reached⟩ := endless (superclasses.size + 1)
    exact repeats_of_long (Nat.lt_succ_self _) reached
  · exact Repeats.endless

theorem le_size_of_endsAfter (ends : EndsAfter (recorded? superclasses) h n) :
    n ≤ superclasses.size := by
  by_contra long
  obtain ⟨top, reached, -⟩ := id ends
  exact ends.not_endless (repeats_of_long (Nat.lt_of_not_le long) reached).endless

end Bounds

/-- **The depth of a type is exact and safe on cycles**, for every table of superclasses and in
whatever order its entries are listed when the hierarchy is gathered.  The walk from a type, with its
own set of visited types, ends; it answers a cycle for exactly the chains that never end, which are
those that pass some type twice.  Every other chain ends after some number of hops, at most as many
as there are records, and the depth is that number.  So a type is one hop deeper than its
superclass. -/
theorem depth_exact (superclasses : Std.ExtTreeMap Handle (Option Handle))
    {records : List (Handle × Option Handle)} (perm : records.Perm superclasses.toList)
    (h : Handle) :
    let i := ofRecords records
    let above := recorded? superclasses
    (∀ x, i.superclass? x = above x) ∧
      (i.depth h = .cycle ↔ Endless above h) ∧
      (Endless above h ↔ Repeats above h) ∧
      (i.depth h ≠ .cycle → ∃! n, EndsAfter above h n) ∧
      (∀ n, EndsAfter above h n → n ≤ superclasses.size ∧ i.depth h = .ofCount n) ∧
      ∀ p, above h = some p →
        (i.depth h = .cycle ↔ i.depth p = .cycle) ∧
          ∀ n, EndsAfter above p n → i.depth p = .ofCount n ∧ i.depth h = .ofCount (n + 1) := by
  intro i above
  have same : i.superclass? = above := funext (superclass?_ofRecords perm)
  rw [← same]
  refine ⟨fun x => rfl, depth_eq_cycle_iff, same ▸ endless_iff_repeats, ?_, ?_, ?_⟩
  · intro finite
    rcases endless_or_endsAfter i.superclass? h with endless | ⟨n, ends⟩
    · exact absurd (depth_of_endless endless) finite
    · exact ⟨n, ends, fun m ends' => ends'.unique ends⟩
  · intro n ends
    exact ⟨le_size_of_endsAfter (same ▸ ends), depth_of_endsAfter ends⟩
  · intro p above
    refine ⟨?_, fun n ends => ?_⟩
    · rw [depth_eq_cycle_iff, depth_eq_cycle_iff, endless_iff_of_some above]
    · exact ⟨depth_of_endsAfter ends, depth_of_endsAfter ((endsAfter_succ_of_some above).mpr ends)⟩

/-- Two types that extend each other, a third that enters their loop, a type that extends itself, and
one below a type without a record. -/
def looped : Std.ExtTreeMap Handle (Option Handle) :=
  ((((Std.ExtTreeMap.empty.insert ⟨0⟩ (some ⟨1⟩)).insert ⟨1⟩ (some ⟨0⟩)).insert ⟨2⟩
    (some ⟨0⟩)).insert ⟨3⟩ (some ⟨3⟩)).insert ⟨5⟩ (some ⟨4⟩)

theorem depth_exact_looped :
    let i := ofRecords looped.toList.reverse
    i.depth ⟨2⟩ = .cycle ∧ i.depth ⟨3⟩ = .cycle ∧ i.depth ⟨0⟩ = .cycle ∧
      i.depth ⟨5⟩ = .ofCount 1 := by
  intro i
  have enters : recorded? looped ⟨2⟩ = some ⟨0⟩ := by decide +kernel
  have outside : recorded? looped ⟨5⟩ = some ⟨4⟩ := by decide +kernel
  have bare : EndsAfter (recorded? looped) ⟨4⟩ 0 := endsAfter_zero.mpr (by decide +kernel)
  have loop : Repeats (recorded? looped) ⟨0⟩ := ⟨0, 2, ⟨0⟩, by decide, rfl, by decide +kernel⟩
  have self : Repeats (recorded? looped) ⟨3⟩ := ⟨0, 1, ⟨3⟩, by decide, rfl, by decide +kernel⟩
  have perm : looped.toList.reverse.Perm looped.toList := List.reverse_perm _
  obtain ⟨-, first, second, -⟩ := depth_exact looped perm ⟨0⟩
  obtain ⟨-, first', second', -⟩ := depth_exact looped perm ⟨3⟩
  obtain ⟨-, -, -, -, -, below⟩ := depth_exact looped perm ⟨2⟩
  obtain ⟨-, -, -, -, -, deeper⟩ := depth_exact looped perm ⟨5⟩
  have cyclic : i.depth ⟨0⟩ = .cycle := first.mpr (second.mpr loop)
  exact ⟨(below ⟨0⟩ enters).1.mpr cyclic, first'.mpr (second'.mpr self), cyclic,
    ((deeper ⟨4⟩ outside).2 0 bare).2⟩

end Inheritance

end CodeMetrics
