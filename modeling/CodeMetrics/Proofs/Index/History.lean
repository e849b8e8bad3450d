import CodeMetrics.Proofs.Index.Registration

/-!
# The index after any history

Whatever changes a model goes through, in any order, refused or not, its index stays sound.  This
module carries the invariants from one operation to a whole history, and reads off what callers of
the index may rely on: its look-ups and listings are exact, and ownership is a forest.
-/

namespace CodeMetrics

namespace Model

variable (m : Model)

/-! ## One change -/

theorem register_moves (sound : m.index.Sound) (key : String) (kind : Kind)
    (parent : Option String) : m.index.Moves (m.register key kind parent).2.index := by
  unfold register
  split
  · next ok => exact Index.register_moves sound ok
  · exact .refl

theorem registerExternal_moves (key : String) :
    m.index.Moves (m.registerExternal key).2.index :=
  Index.registerExternal_moves m.index key

theorem attach_moves (key name : String) (value : Measure) :
    m.index.Moves (m.attach key name value).2.index := by
  unfold attach
  split
  · next ok => exact Index.attach_moves ok
  · exact .refl

theorem attachTo_moves (h : Handle) (name : String) (value : Measure) :
    m.index.Moves (m.attachTo h name value).2.index := by
  unfold attachTo
  split
  · next ok => exact Index.attachTo_moves ok
  · exact .refl

theorem resolve_moves (key : String) : m.index.Moves (m.resolve key).2.index := by
  unfold resolve
  split
  · split
    · exact .refl
    · exact .refl
  · exact m.registerExternal_moves key

/-- A dependency registers at most the two placeholders that it needs.  If its target is refused,
the one for its source stays. -/
theorem addEdge_moves (source target : String) (kind : EdgeKind) :
    m.index.Moves (m.addEdge source target kind).2.index := by
  unfold addEdge
  split
  · exact .refl
  · have first := m.resolve_moves source
    split
    · next resolved => rw [resolved] at first; exact first
    · next m₁ resolved =>
        rw [resolved] at first
        have second := m₁.resolve_moves target
        split
        · next resolved => rw [resolved] at second; exact first.trans second
        · next resolved => rw [resolved] at second; exact first.trans second

/-- Every change is a chain of elementary changes, unless all elements are forgotten. -/
theorem apply_moves (sound : m.index.Sound) {change : Change} (kept : change ≠ .clearIndex) :
    m.index.Moves (m.apply change).2.index := by
  cases change with
  | register key kind parent => exact m.register_moves sound key kind parent
  | registerExternal key => exact m.registerExternal_moves key
  | attach key name value => exact m.attach_moves key name value
  | attachTo h name value => exact m.attachTo_moves h name value
  | addEdge source target kind => exact m.addEdge_moves source target kind
  | addVertex h => exact .refl
  | addTypes => exact .refl
  | clearIndex => exact absurd rfl kept

theorem apply_sound (sound : m.index.Sound) (change : Change) : (m.apply change).2.index.Sound := by
  by_cases kept : change = .clearIndex
  · subst kept
    exact .empty
  · exact sound.moves (m.apply_moves sound kept)

/-! ## A history of changes -/

/-- Carries out changes one after the other. -/
def applyAll (changes : List Change) : Model :=
  changes.foldl (fun m change => (m.apply change).2) m

theorem applyAll_append (before after : List Change) :
    m.applyAll (before ++ after) = (m.applyAll before).applyAll after :=
  List.foldl_append

theorem applyAll_sound (sound : m.index.Sound) (changes : List Change) :
    (m.applyAll changes).index.Sound := by
  induction changes generalizing m with
  | nil => exact sound
  | cons change changes ih => exact ih _ (m.apply_sound sound change)

/-- Changes are a chain of elementary changes, unless all elements are forgotten in between. -/
theorem applyAll_moves {m : Model} (sound : m.index.Sound) {changes : List Change}
    (kept : ∀ change ∈ changes, change ≠ .clearIndex) :
    m.index.Moves (m.applyAll changes).index := by
  induction changes generalizing m with
  | nil => exact .refl
  | cons change rest ih =>
      have first := m.apply_moves sound (kept change List.mem_cons_self)
      exact first.trans
        (ih (sound.moves first) fun c listed => kept c (List.mem_cons_of_mem _ listed))

end Model

namespace Index

variable {ix : Index}

/-- The children of a handle are the elements whose owner it is. -/
theorem Sound.mem_children_iff (sound : ix.Sound) {h : Handle} {e : Element} :
    e ∈ ix.children h ↔ ix.get? e.handle = some e ∧ e.parent = some h := by
  have mem_iff : e ∈ ix.children h ↔ ∃ c ∈ ix.childrenOf h, ix.get? c = some e := by
    unfold children childrenOf
    cases ix.get? h <;> simp
  rw [mem_iff]
  constructor
  · rintro ⟨c, listed, found⟩
    rw [sound.mem_childrenOf_iff, parent?_of_get? found] at listed
    rw [sound.handle_eq found]
    exact ⟨found, listed⟩
  · rintro ⟨found, owned⟩
    refine ⟨e.handle, sound.mem_childrenOf_iff.mpr ?_, found⟩
    rw [parent?_of_get? found, owned]

theorem Sound.nodup_children (sound : ix.Sound) (h : Handle) : (ix.children h).Nodup := by
  have nodup := sound.nodup_childrenOf h
  unfold childrenOf at nodup
  unfold children
  cases found : ix.get? h with
  | none => simp
  | some e =>
      rw [found] at nodup
      refine List.Nodup.filterMap ?_ nodup
      intro a b c first second
      rw [← sound.handle_eq first, ← sound.handle_eq second]

/-- The members of a key are the elements of the kind that it owns.  An unknown key has none. -/
theorem Sound.mem_members_iff (sound : ix.Sound) {key : String} {kind : Kind} {e : Element} :
    e ∈ ix.members key kind ↔
      ix.get? e.handle = some e ∧ e.kind = kind ∧
        ∃ owner, ix.handle? key = some owner ∧ e.parent = some owner := by
  unfold members
  cases listed : ix.handle? key with
  | none => simp
  | some owner =>
      rw [List.mem_filter, sound.mem_children_iff, beq_iff_eq]
      constructor
      · rintro ⟨⟨found, owned⟩, is⟩
        exact ⟨found, is, owner, rfl, owned⟩
      · rintro ⟨found, is, owner', same, owned⟩
        rw [Option.some.injEq] at same
        rw [same]
        exact ⟨⟨found, owned⟩, is⟩

theorem Sound.nodup_members (sound : ix.Sound) (key : String) (kind : Kind) :
    (ix.members key kind).Nodup := by
  unfold members
  split
  · exact List.nodup_nil
  · exact (sound.nodup_children _).filter _

/-- The project, if there is one, has the smallest handle of all projects.  The list of projects is
never rearranged: no kind but a placeholder is ever exchanged for another. -/
theorem Coherent.project?_eq_some_iff (coherent : ix.Coherent) {e : Element} :
    ix.project? = some e ↔
      e ∈ ix.search (·.kind == .project) ∧
        ∀ e' ∈ ix.search (·.kind == .project), e.handle.slot ≤ e'.handle.slot := by
  have ascending := coherent.pairwise_search (·.kind == .project)
  rw [coherent.project?_eq_head?]
  cases projects : ix.search (·.kind == .project) with
  | nil => simp
  | cons first others =>
      rw [projects, List.pairwise_cons] at ascending
      rw [List.head?_cons, Option.some.injEq]
      constructor
      · rintro rfl
        refine ⟨List.mem_cons_self, fun e' listed => ?_⟩
        rcases List.mem_cons.mp listed with rfl | later
        · exact Nat.le_refl _
        · exact Nat.le_of_lt (ascending.1 e' later)
      · rintro ⟨listed, smallest⟩
        rcases List.mem_cons.mp listed with same | later
        · exact same.symm
        · have before := ascending.1 e later
          have notBefore := smallest first List.mem_cons_self
          omega

end Index

namespace Model

/-- **Look-ups and listings are exact after any history.**  The element in a slot has the number of
the slot as its handle; no key occurs twice, and it leads to the element that has it; the listing of
a kind holds every element of this kind once, nothing else and nothing stale; and the project is the
one with the smallest handle. -/
theorem index_lookups_exact (changes : List Change) :
    let ix := (({} : Model).applyAll changes).index
    (∀ (i : Nat) (e : Element), ix.elements[i]? = some e → e.handle = ⟨i⟩) ∧
      (∀ (i j : Nat) (e e' : Element), ix.elements[i]? = some e → ix.elements[j]? = some e' →
        e.key = e'.key → i = j) ∧
      (∀ (key : String) (i : Nat), ix.handle? key = some ⟨i⟩ ↔
        ∃ e, ix.elements[i]? = some e ∧ e.key = key) ∧
      (∀ kind : Kind, (ix.ofKind kind).Perm (ix.search (·.kind == kind)) ∧
        (ix.ofKind kind).Nodup ∧
        (ix.handlesOf kind).toList.map ix.get? = (ix.ofKind kind).map some) ∧
      (∀ e : Element, ix.project? = some e ↔
        e ∈ ix.search (·.kind == .project) ∧
          ∀ e' ∈ ix.search (·.kind == .project), e.handle.slot ≤ e'.handle.slot) ∧
      (ix.project? = none ↔ ix.search (·.kind == .project) = []) := by
  intro ix
  have coherent : ix.Coherent := (applyAll_sound {} .empty changes).toCoherent
  refine ⟨fun i e found => ?_, fun i j e e' first second same => ?_, fun key i => ?_,
    fun kind => ⟨coherent.ofKind_perm_search kind, coherent.nodup_ofKind kind,
      coherent.map_get?_handlesOf kind⟩, fun e => coherent.project?_eq_some_iff, ?_⟩
  · exact coherent.handle_eq (h := ⟨i⟩) found
  · have firstKey : ix.key? ⟨i⟩ = some e.key := Index.key?_of_get? first
    have secondKey : ix.key? ⟨j⟩ = some e.key := by
      rw [same]
      exact Index.key?_of_get? second
    exact congrArg Handle.slot (coherent.key?_injective firstKey secondKey)
  · rw [coherent.handle?_iff, Index.key?, Option.map_eq_some_iff]
    rfl
  · rw [coherent.project?_eq_head?, List.head?_eq_none_iff]

/-- **Ownership is a forest after any history.**  Owners and children are elements; a child is
listed once by its owner and by nobody else; every chain of owners ends at an element without owner,
so that nothing owns itself, directly or through others; and the members of a key are exactly the
elements of the kind that its element owns, each once. -/
theorem ownership_is_forest (changes : List Change) :
    let ix := (({} : Model).applyAll changes).index
    (∀ (h : Handle) (e : Element), ix.get? h = some e →
      (∀ owner, e.parent = some owner → owner.slot < ix.size) ∧
        ∀ child ∈ e.children, child.slot < ix.size) ∧
      (∀ (owner child : Handle) (e : Element), ix.get? owner = some e →
        e.children.count child =
          if (ix.get? child).bind Element.parent = some owner then 1 else 0) ∧
      (∀ h : Handle, h.slot < ix.size →
        ∃ root, ix.Within h root ∧ root.slot < ix.size ∧ ix.parent? root = none) ∧
      (∀ h : Handle, ¬ Relation.TransGen ix.Owns h h) ∧
      (∀ (key : String) (kind : Kind), (ix.members key kind).Nodup ∧
        ∀ e : Element, e ∈ ix.members key kind ↔
          e ∈ ix.elements.toList ∧ e.kind = kind ∧
            ∃ owner, ix.handle? key = some owner ∧ e.parent = some owner) := by
  intro ix
  have sound : ix.Sound := applyAll_sound {} .empty changes
  refine ⟨fun h e found => ⟨fun owner owned => ?_, fun child listed => ?_⟩,
    fun owner child e found => ?_, fun h known => sound.exists_root known,
    fun h => sound.grounded.transGen.irrefl.irrefl h, fun key kind =>
      ⟨sound.nodup_members key kind, fun e => ?_⟩⟩
  · have owned : ix.parent? h = some owner := by rw [Index.parent?_of_get? found, owned]
    exact sound.owner_known owned
  · rw [← Index.childrenOf_of_get? found, sound.mem_childrenOf_iff] at listed
    exact Index.Knows.of_parent? listed
  · rw [← Index.childrenOf_of_get? found]
    exact sound.count_children owner child
  · rw [sound.mem_elements_iff]
    exact sound.mem_members_iff

end Model

end CodeMetrics
