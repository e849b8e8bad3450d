import CodeMetrics.Fact
import CodeMetrics.Proofs.Index.Registration

/-!
# An index and the declarations it was made from

`Index.Records` relates an index to a list of declarations, in any order: every element was declared
with its kind and its owner, and every declaration is present.  It is the view of the index that
does not depend on handles.  A registration that is accepted adds its declaration; one that is
refused contradicts an earlier declaration of the same key.

A declaration is present in a weak sense.  A placeholder may have become a type since, and an owner
may have been left out: because the element had one already, or because the owner is owned by the
element.
-/

namespace CodeMetrics

namespace Index

/-- The elements are the ones that were declared. -/
structure Records (ix : Index) (ds : List Declaration) : Prop where
  reported : ∀ {h : Handle} {key : String} {kind : Kind}, ix.key? h = some key →
    ix.kind? h = some kind → ∃ d ∈ ds, d.key = key ∧ d.kind = kind
  present : ∀ {d : Declaration}, d ∈ ds → ∃ h kind, ix.key? h = some d.key ∧
    ix.kind? h = some kind ∧ (kind = d.kind ∨ kind = .type ∧ d.kind = .external)
  owner_reported : ∀ {h owner : Handle}, ix.parent? h = some owner → ∃ d ∈ ds,
    ix.key? h = some d.key ∧ ∃ ownerKey, d.parent = some ownerKey ∧ ix.key? owner = some ownerKey
  owner_present : ∀ {d : Declaration} {ownerKey : String}, d ∈ ds → d.parent = some ownerKey →
    ownerKey ≠ d.key → ∃ h owner, ix.key? h = some d.key ∧ ix.key? owner = some ownerKey ∧
      (ix.parent? h ≠ none ∨ ix.Within owner h)

/-- The elements of an index as declarations. -/
def declarations (ix : Index) : List Declaration :=
  ix.elements.toList.map fun e => ⟨e.kind, e.key, e.parent.bind ix.key?⟩

theorem Grows.within {ix ix' : Index} (grows : ix.Grows ix') {node ancestor : Handle}
    (within : ix.Within node ancestor) : ix'.Within node ancestor := by
  have owns : ix.Owns ≤ ix'.Owns := fun _ _ owned => grows.parent_kept owned
  exact Relation.ReflTransGen.mono owns _ _ within

namespace Records

variable {ix ix' : Index} {ds : List Declaration}

/-- Every index is made from its own elements: if each element is declared with its kind and its
owner, the index records these declarations. -/
theorem self (sound : ix.Sound) : ix.Records ix.declarations where
  reported {h key kind} named is := by
    obtain ⟨e, found, rfl⟩ := Option.map_eq_some_iff.mp named
    rw [kind?_of_get? found, Option.some.injEq] at is
    have same := sound.handle_eq found
    subst same
    exact ⟨_, List.mem_map_of_mem (sound.mem_elements_iff.mpr found), rfl, is⟩
  present {d} listed := by
    obtain ⟨e, member, rfl⟩ := List.mem_map.mp listed
    have found := sound.mem_elements_iff.mp member
    exact ⟨e.handle, e.kind, key?_of_get? found, kind?_of_get? found, .inl rfl⟩
  owner_reported {h owner} owned := by
    obtain ⟨e, found, parent⟩ := Option.bind_eq_some_iff.mp owned
    have same := sound.handle_eq found
    subst same
    obtain ⟨ownerKey, named⟩ := knows_iff_key?.mp (sound.owner_known owned)
    refine ⟨_, List.mem_map_of_mem (sound.mem_elements_iff.mpr found), key?_of_get? found,
      ownerKey, ?_, named⟩
    rw [parent, Option.bind_some, named]
  owner_present {d ownerKey} listed parent _ := by
    obtain ⟨e, member, rfl⟩ := List.mem_map.mp listed
    obtain ⟨owner, owned, named⟩ := Option.bind_eq_some_iff.mp parent
    have found := sound.mem_elements_iff.mp member
    refine ⟨e.handle, owner, key?_of_get? found, named, .inl ?_⟩
    rw [parent?_of_get? found, owned]
    exact Option.some_ne_none owner

/-- The registered kind of a declared key fits the declaration. -/
theorem fits (records : ix.Records ds) (coherent : ix.Coherent) {d : Declaration} (listed : d ∈ ds)
    {h : Handle} {kind : Kind} (named : ix.key? h = some d.key) (is : ix.kind? h = some kind) :
    kind = d.kind ∨ kind = .type ∧ d.kind = .external := by
  obtain ⟨g, existing, named', is', fits⟩ := records.present listed
  have same := coherent.key?_injective named named'
  subst same
  rw [is, Option.some.injEq] at is'
  rw [is']
  exact fits

/-- A key is declared as a type exactly if it is known as one. -/
theorem isType_iff (records : ix.Records ds) {key : String} :
    (∃ d ∈ ds, d.kind = .type ∧ d.key = key) ↔
      ∃ h, ix.key? h = some key ∧ ix.kind? h = some .type := by
  constructor
  · rintro ⟨d, listed, type, rfl⟩
    obtain ⟨h, kind, named, is, fits⟩ := records.present listed
    refine ⟨h, named, ?_⟩
    rcases fits with same | ⟨same, -⟩
    · rw [is, same, type]
    · rw [is, same]
  · rintro ⟨h, named, is⟩
    obtain ⟨d, listed, same, type⟩ := records.reported named is
    exact ⟨d, listed, type, same⟩

/-- Only the keys, the kinds and the owners matter, so measures may change under the same
declarations. -/
theorem reshape (records : ix.Records ds) (keys : ∀ h, ix'.key? h = ix.key? h)
    (kinds : ∀ h, ix'.kind? h = ix.kind? h) (parents : ∀ h, ix'.parent? h = ix.parent? h) :
    ix'.Records ds where
  reported {h key kind} named is := by
    rw [keys] at named
    rw [kinds] at is
    exact records.reported named is
  present listed := by
    simp only [keys, kinds]
    exact records.present listed
  owner_reported {h owner} owned := by
    rw [parents] at owned
    simp only [keys]
    exact records.owner_reported owned
  owner_present listed parent other := by
    simp only [keys, parents, within_congr parents]
    exact records.owner_present listed parent other

/-! ## Accepted registrations -/

variable {key : String} {kind : Kind} {parent : Option String} {h : Handle} {base : Index}

theorem placed_handle (sound : ix.Sound) (placed : ix.Placed key kind h base) {e : Element}
    (found : ix.find? key = some e) : e.handle = h := by
  obtain ⟨at_handle, named⟩ := sound.find?_eq_some_iff.mp found
  have kept : base.key? e.handle = some key :=
    (Grows.of_moves placed.moves).key_kept (by rw [key?_of_get? at_handle, named])
  exact (sound.moves placed.moves).key?_injective kept placed.key?

/-- A reported owner is settled: the element has an owner now, or it owns the reported one, directly
or through others, and then the link was refused to keep the owners free of cycles. -/
theorem settled (sound : ix.Sound) (placed : ix.Placed key kind h base) {owner : Handle}
    {ownerKey : String} (ownerKnown : ix.key? owner = some ownerKey)
    (reported : parent = some ownerKey) (other : ownerKey ≠ key) :
    (base.settle h (ix.adoption key parent)).parent? h ≠ none ∨
      (base.settle h (ix.adoption key parent)).Within owner h := by
  subst reported
  have listed := sound.handle?_iff.mpr ownerKnown
  have adopts := ix.adopts key (some ownerKey)
  generalize ix.adoption key (some ownerKey) = adopted at adopts ⊢
  cases adopts with
  | unreported none_left => simp [other] at none_left
  | owned found owned =>
      left
      rw [settle, placed.parent?_eq, ← placed_handle sound placed found,
        parent?_of_get? (sound.find?_eq_some_iff.mp found).1]
      · exact owned
      · rintro _ ⟨⟩
  | @known _ adopter _ _ _ =>
      left
      rw [settle, parent?_link_self base adopter h (.of_key? placed.key?)]
      exact Option.some_ne_none adopter
  | placeholder reported _ unlisted _ =>
      cases reported
      rw [listed] at unlisted
      cases unlisted
  | circular reported listed' found within =>
      cases reported
      -- the link was refused because the reported owner lies below the element, and it still does
      cases listed.symm.trans listed'
      right
      rw [← placed_handle sound placed found]
      exact (Grows.of_moves placed.moves).within
        ((sound.isWithin_iff (.of_key? ownerKnown)).mp within)

/-- An owner that was not there before is the reported one, and it is that of the placed element. -/
theorem parent?_settle_cases (sound : ix.Sound) (placed : ix.Placed key kind h base)
    {g owner : Handle} (owned : (base.settle h (ix.adoption key parent)).parent? g = some owner) :
    ix.parent? g = some owner ∨
      g = h ∧ ∃ ownerKey, parent = some ownerKey ∧ ix.key? owner = some ownerKey := by
  have adopts := ix.adopts key parent
  generalize ix.adoption key parent = adopted at adopts owned
  by_cases same : g = h
  · subst same
    cases adopts with
    | @known ownerKey adopter reported listed _ =>
        rw [settle, parent?_link_self base adopter g (.of_key? placed.key?),
          Option.some.injEq] at owned
        subst owned
        exact .inr ⟨rfl, ownerKey, reported, sound.handle?_iff.mp listed⟩
    | _ => exact .inl ((placed.parent?_eq g).symm.trans owned)
  · rw [parent?_settle_of_ne base g _ same, placed.parent?_eq] at owned
    exact .inl owned

/-- A key that is placed and settled adds its declaration to those that the index records.  What was
recorded before stays recorded while the index grows. -/
theorem settle (records : ix.Records ds) (sound : ix.Sound) (placed : ix.Placed key kind h base)
    (ownerKnown : ix.OwnerKnown parent)
    (grows : ix.Grows (base.settle h (ix.adoption key parent))) :
    (base.settle h (ix.adoption key parent)).Records (ds ++ [⟨kind, key, parent⟩]) where
  reported {g k existing} named is := by
    rw [key?_settle] at named
    rw [kind?_settle] at is
    by_cases same : g = h
    · subst same
      rw [placed.key?, Option.some.injEq] at named
      subst named
      rcases placed.kind?_cases is with before | reported
      · have named : ix.key? g = some key := placed.key?_of_knows (.of_kind? before)
        obtain ⟨d, listed, facts⟩ := records.reported named before
        exact ⟨d, List.mem_append_left _ listed, facts⟩
      · exact ⟨_, List.mem_append_right _ (List.mem_singleton_self _), rfl, reported.symm⟩
    · rw [placed.key?_eq_of_ne same] at named
      rw [placed.kind?_eq_of_ne same] at is
      obtain ⟨d, listed, facts⟩ := records.reported named is
      exact ⟨d, List.mem_append_left _ listed, facts⟩
  present {d} listed := by
    rcases List.mem_append.mp listed with old | new
    · obtain ⟨g, existing, named, is, fits⟩ := records.present old
      -- an older declaration: its key has the same kind, or was a placeholder and is a type now
      rcases grows.kind_kept is with kept | ⟨external, promoted⟩
      · exact ⟨g, existing, grows.key_kept named, kept, fits⟩
      · refine ⟨g, .type, grows.key_kept named, promoted, .inr ⟨rfl, ?_⟩⟩
        rcases fits with same | ⟨type, -⟩
        · rw [← same, external]
        · rw [external] at type
          cases type
    · rw [List.mem_singleton] at new
      subst new
      rcases placed.kind? with is | ⟨is, reported⟩
      · exact ⟨h, kind, by rw [key?_settle, placed.key?], by rw [kind?_settle, is], .inl rfl⟩
      · exact ⟨h, .type, by rw [key?_settle, placed.key?], by rw [kind?_settle, is],
          .inr ⟨rfl, reported⟩⟩
  owner_reported {g owner} owned := by
    rcases parent?_settle_cases sound placed owned with before | ⟨rfl, ownerKey, reported, named⟩
    · obtain ⟨d, listed, named, ownerKey, parent, ownerNamed⟩ := records.owner_reported before
      exact ⟨d, List.mem_append_left _ listed, grows.key_kept named, ownerKey, parent,
        grows.key_kept ownerNamed⟩
    · exact ⟨_, List.mem_append_right _ (List.mem_singleton_self _),
        by rw [key?_settle, placed.key?], ownerKey, reported, grows.key_kept named⟩
  owner_present {d ownerKey} listed reported other := by
    rcases List.mem_append.mp listed with old | new
    · obtain ⟨g, owner, named, ownerNamed, placed⟩ := records.owner_present old reported other
      refine ⟨g, owner, grows.key_kept named, grows.key_kept ownerNamed, ?_⟩
      rcases placed with owned | within
      · obtain ⟨p, owned⟩ := Option.ne_none_iff_exists'.mp owned
        left
        rw [grows.parent_kept owned]
        exact Option.some_ne_none p
      · exact .inr (grows.within within)
    · rw [List.mem_singleton] at new
      subst new
      -- the new declaration: its owner is there by assumption
      obtain ⟨owner, named⟩ := ownerKnown ownerKey reported
      exact ⟨h, owner, by rw [key?_settle, placed.key?], grows.key_kept named,
        settled sound placed named reported other⟩

/-- An accepted registration adds its declaration. -/
theorem register (records : ix.Records ds) (sound : ix.Sound)
    (ownerKnown : ix.OwnerKnown parent)
    (ok : ix.register key kind parent = .ok (h, ix')) :
    ix'.Records (ds ++ [⟨kind, key, parent⟩]) := by
  have grows := Grows.of_moves (register_moves sound ok)
  obtain ⟨base, placed, rfl⟩ := register_placed sound.toCoherent
    (adoption_ne_placeholder sound.toCoherent ownerKnown) ok
  exact records.settle sound placed ownerKnown grows

/-- A placeholder that is made or not needed adds its declaration. -/
theorem placed (records : ix.Records ds) (sound : ix.Sound) (placed : ix.Placed key kind h base) :
    base.Records (ds ++ [⟨kind, key, none⟩]) := by
  have orphan : base.settle h (ix.adoption key none) = base := rfl
  rw [← orphan]
  exact records.settle sound placed (.unreported ix) (Grows.of_moves placed.moves)

/-- What is there already may be declared again, without an owner, and this says nothing new about
the index. -/
theorem again (records : ix.Records ds) (named : ix.key? h = some key)
    (is : ix.kind? h = some kind) : ix.Records (ds ++ [⟨kind, key, none⟩]) where
  reported named is := by
    obtain ⟨d, listed, facts⟩ := records.reported named is
    exact ⟨d, List.mem_append_left _ listed, facts⟩
  present {d} listed := by
    rcases List.mem_append.mp listed with old | new
    · exact records.present old
    · rw [List.mem_singleton] at new
      subst new
      exact ⟨h, kind, named, is, .inl rfl⟩
  owner_reported owned := by
    obtain ⟨d, listed, facts⟩ := records.owner_reported owned
    exact ⟨d, List.mem_append_left _ listed, facts⟩
  owner_present {d ownerKey} listed reported other := by
    rcases List.mem_append.mp listed with old | new
    · exact records.owner_present old reported other
    · rw [List.mem_singleton] at new
      subst new
      cases reported

/-! ## Refused registrations -/

/-- A known key with a kind that does not fit was declared so. -/
theorem misfit (records : ix.Records ds) {existing : Kind} (named : ix.key? h = some key)
    (is : ix.kind? h = some existing) (misfit : ¬ existing.Fits kind) :
    ∃ d ∈ ds, d.key = key ∧ ¬ d.kind.Fits kind := by
  obtain ⟨d, listed, same, reported⟩ := records.reported named is
  exact ⟨d, listed, same, by rw [reported]; exact misfit⟩

/-- A refused registration contradicts an earlier declaration. -/
theorem refused (records : ix.Records ds) (coherent : ix.Coherent) {err : IndexError}
    (refused : ix.register key kind parent = .error err) :
    ∃ d ∈ ds, d.key = key ∧ ¬ d.kind.Fits kind := by
  obtain ⟨h, existing, listed, is, unfit, -⟩ := (register_eq_error_iff coherent).mp refused
  exact records.misfit (coherent.handle?_iff.mp listed) is unfit

end Records

/-! ## The project -/

/-- The key of the project that was registered first. -/
def projectKey? (ix : Index) : Option String := (ix.handlesOf .project)[0]?.bind ix.key?

theorem map_key_project? (ix : Index) : ix.project?.map Element.key = ix.projectKey? := by
  unfold project? projectKey? key?
  cases (ix.handlesOf .project)[0]? <;> rfl

section Project

variable {ix base : Index} {key : String} {kind : Kind} {h : Handle}

@[simp] theorem projectKey?_settle (base : Index) (h : Handle) (adopted : Adoption) :
    (base.settle h adopted).projectKey? = base.projectKey? := by
  have keys : (base.settle h adopted).key? = base.key? := by
    funext g
    exact key?_settle base g adopted
  rw [projectKey?, projectKey?, handlesOf_settle, keys]

/-- Nothing but a project changes which project is the first.  A placeholder that becomes a type
moves between two other lists. -/
theorem Placed.projectKey?_eq (placed : ix.Placed key kind h base) (coherent : ix.Coherent)
    (other : kind ≠ .project) : base.projectKey? = ix.projectKey? := by
  have listed_eq : base.handlesOf .project = ix.handlesOf .project := by
    cases placed with
    | kept _ _ _ => rfl
    | promoted _ _ _ => simp
    | inserted _ => simp [other]
  unfold projectKey?
  rw [listed_eq]
  cases first : (ix.handlesOf .project)[0]? with
  | none => rfl
  | some g =>
      have listed : g ∈ (ix.handlesOf .project).toList :=
        Array.mem_toList_iff.mpr (Array.mem_of_getElem? first)
      obtain ⟨key, named⟩ := knows_iff_key?.mp (coherent.knows_of_mem listed)
      rw [Option.bind_some, Option.bind_some, named,
        (Grows.of_moves placed.moves).key_kept named]

theorem handlesOf_project_eq_empty (coherent : ix.Coherent) (none : ix.project? = none) :
    ix.handlesOf .project = #[] := by
  cases first : (ix.handlesOf .project)[0]? with
  | none => simpa using first
  | some g =>
      have listed : g ∈ (ix.handlesOf .project).toList :=
        Array.mem_toList_iff.mpr (Array.mem_of_getElem? first)
      obtain ⟨e, found⟩ := knows_iff_get?.mp (coherent.knows_of_mem listed)
      rw [project?, first, Option.bind_some, found] at none
      cases none

/-- The first project that is placed is the first project from then on.  Before it the list of
projects was empty. -/
theorem Placed.projectKey?_first (placed : ix.Placed key .project h base) (coherent : ix.Coherent)
    (none : ix.project? = none) : base.projectKey? = some key := by
  have empty := handlesOf_project_eq_empty coherent none
  cases placed with
  | kept _ is fits =>
      rcases fits with rfl | ⟨-, impossible⟩
      · have listed := coherent.mem_handlesOf.mpr is
        rw [empty] at listed
        cases listed
      · cases impossible
  | promoted _ _ impossible => cases impossible
  | inserted _ => simp [projectKey?, empty]

end Project

end Index

end CodeMetrics
