import CodeMetrics.Proofs.Index.Change
import Mathlib.Data.List.Nodup

/-!
# The secondary indexes agree with the elements

An index keeps each element in a slot, the handle of each key, and the handles of each kind.
`Index.Coherent` says that the three agree: the element in a slot has the number of the slot as its
handle, a key leads to the one element that has it, and the handles listed for a kind are those of
the elements that have this kind now, each once.

The order of a list is the order of registration, except that a promoted placeholder goes to the end
of the types.  Hence the first handle listed for the kind of projects is the smallest.
-/

namespace CodeMetrics

namespace Index

/-- The elements, the handles by key and the handles by kind agree. -/
structure Coherent (ix : Index) : Prop where
  handle_eq : ∀ {h : Handle} {e : Element}, ix.get? h = some e → e.handle = h
  handle?_iff : ∀ {key : String} {h : Handle}, ix.handle? key = some h ↔ ix.key? h = some key
  mem_handlesOf : ∀ {kind : Kind} {h : Handle},
    h ∈ (ix.handlesOf kind).toList ↔ ix.kind? h = some kind
  nodup_handlesOf : ∀ kind : Kind, (ix.handlesOf kind).toList.Nodup
  /-- Only the types can be out of order. -/
  ascending : ∀ {kind : Kind}, kind ≠ .type →
    (ix.handlesOf kind).toList.Pairwise (·.slot < ·.slot)

namespace Coherent

variable {ix : Index}

/-! ## The elementary changes -/

theorem empty : Coherent {} where
  handle_eq found := by simp [get?] at found
  handle?_iff := by simp [handle?, key?, get?]
  mem_handlesOf := by simp [handlesOf, kind?, get?]
  nodup_handlesOf := by simp [handlesOf]
  ascending := by simp [handlesOf]

theorem knows_of_mem (coherent : ix.Coherent) {kind : Kind} {h : Handle}
    (listed : h ∈ (ix.handlesOf kind).toList) : ix.Knows h :=
  .of_kind? (coherent.mem_handlesOf.mp listed)

/-- Inserting an element under a new key keeps an index coherent.  The new handle is the next one,
so it is larger than all that are listed, and it joins the list of its kind at the end. -/
theorem insert (coherent : ix.Coherent) {key : String} {kind : Kind}
    (fresh : ix.handle? key = none) : (ix.insert key kind).2.Coherent where
  handle_eq {h e} found := by
    rw [get?_insert] at found
    split at found
    · next new => cases found; exact new.symm
    · exact coherent.handle_eq found
  handle?_iff {k h} := by
    rw [handle?_insert, key?_insert]
    by_cases sameKey : key = k
    · by_cases new : h = ⟨ix.size⟩
      · simp [sameKey, new]
      · -- an old handle cannot have the new key
        subst sameKey
        have other : ix.key? h ≠ some key := by
          intro named
          rw [coherent.handle?_iff.mpr named] at fresh
          cases fresh
        simp [new, Ne.symm new, other]
    · by_cases new : h = ⟨ix.size⟩
      · subst new
        have other : ix.handle? k ≠ some ⟨ix.size⟩ := fun listed =>
          not_knows_size ix (.of_key? (coherent.handle?_iff.mp listed))
        simp [sameKey, other]
      · simpa [sameKey, new] using coherent.handle?_iff
  mem_handlesOf {k h} := by
    rw [handlesOf_insert, kind?_insert]
    by_cases new : h = ⟨ix.size⟩
    · -- the new handle joins the list of its kind, and was in none before
      subst new
      have unlisted : ⟨ix.size⟩ ∉ (ix.handlesOf k).toList := fun listed =>
        not_knows_size ix (coherent.knows_of_mem listed)
      by_cases sameKind : kind = k
      · simp [sameKind]
      · simpa [sameKind] using unlisted
    · by_cases sameKind : kind = k
      · simpa [sameKind, new] using coherent.mem_handlesOf
      · simpa [sameKind, new] using coherent.mem_handlesOf
  nodup_handlesOf k := by
    rw [handlesOf_insert]
    split
    · rw [Array.toList_push, List.nodup_append]
      refine ⟨coherent.nodup_handlesOf k, by simp, ?_⟩
      intro h listed g new
      rw [List.mem_singleton.mp new]
      exact (coherent.knows_of_mem listed).ne_size
    · exact coherent.nodup_handlesOf k
  ascending {k} notType := by
    rw [handlesOf_insert]
    split
    · rw [Array.toList_push, List.pairwise_append]
      refine ⟨coherent.ascending notType, by simp, ?_⟩
      intro h listed g new
      rw [List.mem_singleton.mp new]
      exact coherent.knows_of_mem listed
    · exact coherent.ascending notType

/-- A promoted placeholder leaves the list of placeholders and joins that of the types.  It was
listed once among the placeholders and nowhere else, so afterwards it is listed once among the types
and nowhere else. -/
theorem promote (coherent : ix.Coherent) {g : Handle} (external : ix.kind? g = some .external) :
    (ix.promote g).Coherent where
  handle_eq {h e} found := by
    rw [get?_promote, Option.map_eq_some_iff] at found
    obtain ⟨before, found, rfl⟩ := found
    have kept := coherent.handle_eq found
    split
    · exact kept
    · exact kept
  handle?_iff {k h} := by
    rw [handle?_promote, key?_promote]
    exact coherent.handle?_iff
  mem_handlesOf {k h} := by
    rw [handlesOf_promote]
    by_cases same : h = g
    · subst same
      rw [kind?_promote_self ix h (.of_kind? external)]
      by_cases isType : k = .type
      · simp [isType]
      · by_cases isExternal : k = .external
        · simp [isExternal]
        · have unlisted : h ∉ (ix.handlesOf k).toList := by
            rw [coherent.mem_handlesOf, external, Option.some.injEq]
            exact Ne.symm isExternal
          simpa [isType, isExternal, Ne.symm isType] using unlisted
    · rw [kind?_promote_of_ne ix g h same, ← coherent.mem_handlesOf]
      by_cases isType : k = .type
      · simp [isType, same]
      · by_cases isExternal : k = .external
        · simp [isExternal, same]
        · simp [isType, isExternal]
  nodup_handlesOf k := by
    rw [handlesOf_promote]
    split
    · -- a placeholder is not yet in the list of the types
      rw [Array.toList_push, List.nodup_append]
      refine ⟨coherent.nodup_handlesOf .type, by simp, ?_⟩
      rintro h listed g' new rfl
      rw [List.mem_singleton.mp new, coherent.mem_handlesOf, external] at listed
      cases listed
    · split
      · rw [Array.toList_filter]
        exact (coherent.nodup_handlesOf .external).filter _
      · exact coherent.nodup_handlesOf k
  ascending {k} notType := by
    rw [handlesOf_promote, if_neg notType]
    split
    · rw [Array.toList_filter]
      exact (coherent.ascending (by decide)).filter _
    · exact coherent.ascending notType

/-- Linking changes owners and children, and no key, kind or listing. -/
theorem link (coherent : ix.Coherent) (owner child : Handle) : (ix.link owner child).Coherent where
  handle_eq {h e} found := by
    rw [get?_link, Option.map_eq_some_iff] at found
    obtain ⟨before, found, rfl⟩ := found
    have kept := coherent.handle_eq found
    exact kept
  handle?_iff {k h} := by
    rw [handle?_link, key?_link]
    exact coherent.handle?_iff
  mem_handlesOf {k h} := by
    rw [handlesOf_link, kind?_link]
    exact coherent.mem_handlesOf
  nodup_handlesOf := coherent.nodup_handlesOf
  ascending := coherent.ascending

/-- Attaching a measure changes no key, kind or listing. -/
theorem measured (coherent : ix.Coherent) (g : Handle) (name : String) (value : Measure) :
    (ix.measured g name value).Coherent where
  handle_eq {h e} found := by
    rw [get?_measured, Option.map_eq_some_iff] at found
    obtain ⟨before, found, rfl⟩ := found
    have kept := coherent.handle_eq found
    split
    · exact kept
    · exact kept
  handle?_iff {k h} := by
    rw [handle?_measured, key?_measured]
    exact coherent.handle?_iff
  mem_handlesOf {k h} := by
    rw [handlesOf_measured, kind?_measured]
    exact coherent.mem_handlesOf
  nodup_handlesOf := coherent.nodup_handlesOf
  ascending := coherent.ascending

/-- Every elementary change keeps the three structures in agreement. -/
theorem move (coherent : ix.Coherent) {ix' : Index} (step : ix.Move ix') : ix'.Coherent := by
  cases step with
  | insert fresh => exact coherent.insert fresh
  | promote external => exact coherent.promote external
  | link _ _ _ _ => exact coherent.link _ _
  | attach _ => exact coherent.measured _ _ _

/-! ## Keys -/

/-- A key is found at the one element that has it.  So look-ups by key and by handle agree. -/
theorem find?_eq_some_iff (coherent : ix.Coherent) {key : String} {e : Element} :
    ix.find? key = some e ↔ ix.get? e.handle = some e ∧ e.key = key := by
  unfold find?
  rw [Option.bind_eq_some_iff]
  constructor
  · rintro ⟨h, listed, found⟩
    have named := coherent.handle?_iff.mp listed
    rw [key?_of_get? found, Option.some.injEq] at named
    rw [coherent.handle_eq found]
    exact ⟨found, named⟩
  · rintro ⟨found, named⟩
    refine ⟨e.handle, coherent.handle?_iff.mpr ?_, found⟩
    rw [key?_of_get? found, named]

theorem find?_eq_none_iff (coherent : ix.Coherent) {key : String} :
    ix.find? key = none ↔ ix.handle? key = none := by
  unfold find?
  cases listed : ix.handle? key with
  | none => simp
  | some h =>
      obtain ⟨e, found⟩ := knows_iff_get?.mp (.of_key? (coherent.handle?_iff.mp listed))
      simp [found]

/-- Two handles with the same key are the same. -/
theorem key?_injective (coherent : ix.Coherent) {g h : Handle} {key : String}
    (first : ix.key? g = some key) (second : ix.key? h = some key) : g = h := by
  have listed := coherent.handle?_iff.mpr first
  rw [coherent.handle?_iff.mpr second] at listed
  exact (Option.some.inj listed).symm

/-! ## Listings -/

theorem mem_elements_iff (coherent : ix.Coherent) {e : Element} :
    e ∈ ix.elements.toList ↔ ix.get? e.handle = some e := by
  rw [List.mem_iff_getElem?]
  constructor
  · rintro ⟨i, found⟩
    have found : ix.get? ⟨i⟩ = some e := by simpa [get?] using found
    rw [coherent.handle_eq found]
    exact found
  · intro found
    exact ⟨e.handle.slot, by simpa [get?] using found⟩

/-- The elements stand in the order of their handles, which is that of their registration. -/
theorem pairwise_elements (coherent : ix.Coherent) :
    ix.elements.toList.Pairwise (·.handle.slot < ·.handle.slot) := by
  rw [List.pairwise_iff_getElem]
  intro i j hi hj before
  have first : ix.get? ⟨i⟩ = some ix.elements.toList[i] := by
    simp only [get?, ← Array.getElem?_toList]
    exact List.getElem?_eq_getElem hi
  have second : ix.get? ⟨j⟩ = some ix.elements.toList[j] := by
    simp only [get?, ← Array.getElem?_toList]
    exact List.getElem?_eq_getElem hj
  rw [coherent.handle_eq first, coherent.handle_eq second]
  exact before

/-- A search finds the elements that pass its test, and only these. -/
theorem mem_search_iff (coherent : ix.Coherent) {test : Element → Bool} {e : Element} :
    e ∈ ix.search test ↔ ix.get? e.handle = some e ∧ test e = true := by
  rw [search, List.mem_filter, coherent.mem_elements_iff]

/-- What a search finds is in the order of registration. -/
theorem pairwise_search (coherent : ix.Coherent) (test : Element → Bool) :
    (ix.search test).Pairwise (·.handle.slot < ·.handle.slot) :=
  coherent.pairwise_elements.filter _

theorem nodup_of_pairwise_slot {l : List Element}
    (ascending : l.Pairwise (·.handle.slot < ·.handle.slot)) : l.Nodup := by
  refine ascending.imp ?_
  rintro a b before rfl
  exact Nat.lt_irrefl _ before

theorem nodup_search (coherent : ix.Coherent) (test : Element → Bool) : (ix.search test).Nodup :=
  nodup_of_pairwise_slot (coherent.pairwise_search test)

/-- The elements of a kind are listed under it, and nothing else is. -/
theorem mem_ofKind_iff (coherent : ix.Coherent) {kind : Kind} {e : Element} :
    e ∈ ix.ofKind kind ↔ ix.get? e.handle = some e ∧ e.kind = kind := by
  rw [ofKind, List.mem_filterMap]
  constructor
  · rintro ⟨h, listed, found⟩
    have is := coherent.mem_handlesOf.mp listed
    rw [kind?_of_get? found, Option.some.injEq] at is
    rw [coherent.handle_eq found]
    exact ⟨found, is⟩
  · rintro ⟨found, is⟩
    refine ⟨e.handle, coherent.mem_handlesOf.mpr ?_, found⟩
    rw [kind?_of_get? found, is]

theorem nodup_ofKind (coherent : ix.Coherent) (kind : Kind) : (ix.ofKind kind).Nodup := by
  refine (coherent.nodup_handlesOf kind).filterMap ?_
  intro g h e first second
  rw [← coherent.handle_eq first, ← coherent.handle_eq second]

/-- No handle listed for a kind is stale. -/
theorem map_get?_handlesOf (coherent : ix.Coherent) (kind : Kind) :
    (ix.handlesOf kind).toList.map ix.get? = (ix.ofKind kind).map some := by
  rw [ofKind, List.map_filterMap]
  refine (List.filterMap_eq_map_iff_forall_eq_some.mpr ?_).symm
  intro h listed
  obtain ⟨e, found⟩ := knows_iff_get?.mp (coherent.knows_of_mem listed)
  simp [found]

/-- The listing of a kind and the search for it give the same elements. -/
theorem ofKind_perm_search (coherent : ix.Coherent) (kind : Kind) :
    (ix.ofKind kind).Perm (ix.search (·.kind == kind)) := by
  rw [List.perm_ext_iff_of_nodup (coherent.nodup_ofKind kind) (coherent.nodup_search _)]
  intro e
  rw [coherent.mem_ofKind_iff, coherent.mem_search_iff, beq_iff_eq]

/-- Except for the types, the two also agree on the order. -/
theorem ofKind_eq_search (coherent : ix.Coherent) {kind : Kind} (notType : kind ≠ .type) :
    ix.ofKind kind = ix.search (·.kind == kind) := by
  have ascending : (ix.ofKind kind).Pairwise (·.handle.slot < ·.handle.slot) := by
    refine List.Pairwise.filterMap _ ?_ (coherent.ascending notType)
    intro g h before a first b second
    rw [coherent.handle_eq first, coherent.handle_eq second]
    exact before
  refine (coherent.ofKind_perm_search kind).eq_of_pairwise ?_ ascending
    (coherent.pairwise_search _)
  intro a b _ _ before after
  exact absurd (Nat.lt_trans before after) (Nat.lt_irrefl _)

/-- The project is the one that was registered first.  Handles of a kind are listed as they were
registered, and a project is never promoted from a placeholder. -/
theorem project?_eq_head? (coherent : ix.Coherent) :
    ix.project? = (ix.search (·.kind == .project)).head? := by
  rw [← coherent.ofKind_eq_search (by decide)]
  have listed := coherent.map_get?_handlesOf .project
  unfold project?
  rw [← Array.getElem?_toList]
  cases handles : (ix.handlesOf .project).toList with
  | nil =>
      rw [handles, List.map_nil, eq_comm, List.map_eq_nil_iff] at listed
      simp [listed]
  | cons h rest =>
      rw [handles] at listed
      cases elements : ix.ofKind .project with
      | nil => simp [elements] at listed
      | cons e others =>
          rw [elements, List.map_cons, List.map_cons, List.cons.injEq] at listed
          simp [listed.1]

end Coherent

end Index

end CodeMetrics
