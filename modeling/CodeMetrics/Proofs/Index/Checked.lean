import CodeMetrics.Proofs.Index.OwnerWalk

/-!
# Registration with checked accesses

The index refers to its elements by number.  An access to a number that belongs to no element is not
an error that the index could report; it is the end of the program.  The operations of the index do
not show this, because they find nothing there, or change nothing.

Here every access is checked.  An operation that makes an access out of range gives `none`, and so
does a walk along the owners that does not end.  The operations are spelled out access by access: the
kinds are reconciled first, then the element is read again for its owner, then the reported owner is
looked up or made, and the two are linked at last.  On a sound index each of them goes through and
gives what the operation without checks gives (`Sound.checkedRegister_eq`), so that no registration
leaves the range.
-/

namespace CodeMetrics

namespace Index

variable {ix : Index} {key : String} {kind : Kind} {parent : Option String} {h owner child : Handle}

/-! ## The operations -/

/-- The element of a key. -/
def checkedFind (ix : Index) (key : String) : Option (Option Element) :=
  match ix.handle? key with
  | none => return none
  | some h => return some (← ix.get? h)

/-- The project that was registered first. -/
def checkedProject (ix : Index) : Option (Option Element) :=
  match (ix.handlesOf .project)[0]? with
  | none => return none
  | some h => return some (← ix.get? h)

/-- The elements owned by an element. -/
def checkedChildren (ix : Index) (h : Handle) : Option (List Element) :=
  match ix.get? h with
  | none => return []
  | some e => e.children.mapM ix.get?

/-- The elements of a kind owned by the element of a key. -/
def checkedMembers (ix : Index) (key : String) (kind : Kind) : Option (List Element) :=
  match ix.handle? key with
  | none => return []
  | some h => return (← ix.checkedChildren h).filter (·.kind == kind)

/-- Makes `owner` the owner of `child`. -/
def checkedLink (ix : Index) (owner child : Handle) : Option Index := do
  let ix ← ix.modify? child fun e => { e with parent := some owner }
  ix.modify? owner fun e => { e with children := e.children ++ [child] }

/-- Turns a placeholder into a type. -/
def checkedPromote (ix : Index) (h : Handle) : Option Index := do
  let byKind := (ix.byKind.insert .external ((ix.handlesOf .external).filter (· != h))).insert .type
    ((ix.handlesOf .type).push h)
  let ix ← ix.modify? h fun e => { e with kind := .type }
  return { ix with byKind := byKind }

/-- Reconciles the kind of a registered element with a reported one. -/
def checkedMergeKind (ix : Index) (h : Handle) (requested : Kind) :
    Option (Except IndexError Index) := do
  match (← ix.get? h).kind, requested with
  | .type, .external => return .ok ix
  | .external, .type => return .ok (← ix.checkedPromote h)
  | existing, requested =>
    if existing = requested then return .ok ix
    else return .error (.kindConflict (← ix.get? h).key existing requested)

/-- Walks along the owners in search of `ancestor`, for a number of turns at most. -/
def checkedWalk (ix : Index) (ancestor : Handle) : Nat → Option Handle → Option Bool
  | _, none => return false
  | 0, some _ => none
  | turns + 1, some node => do
    if node = ancestor then return true
    else ix.checkedWalk ancestor turns (← ix.get? node).parent

/-- Whether `node` is `ancestor` or is owned by it, directly or through others. -/
def checkedIsWithin (ix : Index) (node ancestor : Handle) : Option Bool :=
  ix.checkedWalk ancestor ix.size (some node)

/-- The handle of an owner, or of a new placeholder for it, with what the journal says then. -/
def ensureOwner (ix : Index) (ownerKey : String) : Handle × Index × List Note :=
  match ix.handle? ownerKey with
  | some owner => (owner, ix, [])
  | none =>
    let (owner, ix) := ix.insert ownerKey .external
    (owner, ix, [⟨.debug, s!"Materializing external owner {ownerKey}"⟩])

/-- Links the element of a key to the owner that is reported for it, unless it has an owner. -/
def checkedAdopt (ix : Index) (key : String) (h : Handle) (ownerKey : String) :
    Option (Index × List Note) := do
  if (← ix.get? h).parent.isSome then return (ix, [])
  else
    let (owner, ix, notes) := ix.ensureOwner ownerKey
    if ← ix.checkedIsWithin owner h then
      return (ix, notes ++ [⟨.debug, s!"Ignoring parent {ownerKey} of {key}: ownership cycle"⟩])
    else return (← ix.checkedLink owner h, notes)

/-- Registers a key, or finds the element registered under it; with what the journal says. -/
def checkedRegister (ix : Index) (key : String) (kind : Kind) (parent : Option String) :
    Option (Except IndexError (Handle × Index × List Note)) := do
  match ix.handle? key, parent.filter (· != key) with
  | some h, parent =>
    match ← ix.checkedMergeKind h kind with
    | .error e => return .error e
    | .ok ix =>
      match parent with
      | none => return .ok (h, ix, [])
      | some ownerKey => return .ok (h, ← ix.checkedAdopt key h ownerKey)
  | none, none =>
    let (h, ix) := ix.insert key kind
    return .ok (h, ix, [])
  | none, some ownerKey =>
    let (owner, ix, notes) := ix.ensureOwner ownerKey
    let (h, ix) := ix.insert key kind
    return .ok (h, ← ix.checkedLink owner h, notes)

/-! ## They stay in range -/

theorem modify?_of_knows (known : ix.Knows h) (change : Element → Element) :
    ix.modify? h change = some (ix.modify h change) :=
  if_pos known

/-- Two elements can be linked. -/
theorem checkedLink_eq (ownerKnown : ix.Knows owner) (childKnown : ix.Knows child) :
    ix.checkedLink owner child = some (ix.link owner child) := by
  unfold checkedLink
  rw [modify?_of_knows childKnown, Option.bind_eq_bind, Option.bind_some, modify?_of_knows]
  · rfl
  · rwa [Knows, size_modify]

/-- A known element can be promoted. -/
theorem checkedPromote_eq (known : ix.Knows h) :
    ix.checkedPromote h = some (ix.promote h) := by
  unfold checkedPromote
  rw [modify?_of_knows known]
  rfl

/-- The kind of a known element can be reconciled.  It is read once to be compared, written if a
placeholder becomes a type, and read again for its key if the kinds conflict. -/
theorem checkedMergeKind_eq {e : Element} (found : ix.get? h = some e) (same : e.handle = h)
    (requested : Kind) : ix.checkedMergeKind h requested = some (ix.mergeKind e requested) := by
  obtain rfl := same
  have known : ix.Knows e.handle := .of_get? found
  unfold checkedMergeKind mergeKind
  rw [found, checkedPromote_eq known]
  dsimp only [Option.bind_eq_bind, Option.bind_some]
  generalize e.kind = existing
  cases existing <;> cases requested <;> rfl

/-- The walk with checks gives the answer of the walk without a bound, if it has enough turns. -/
theorem Walks.checkedWalk_eq {ancestor : Handle} {current : Option Handle} {turns limit : Nat}
    {answer : Bool} (walks : ix.Walks ancestor current turns answer) (enough : turns ≤ limit) :
    ix.checkedWalk ancestor limit current = some answer := by
  induction walks generalizing limit with
  | ended => cases limit <;> rfl
  | met =>
      obtain ⟨limit, rfl⟩ := Nat.exists_eq_add_of_le' enough
      rw [checkedWalk, if_pos rfl]
      rfl
  | @passed node e turns answer other found _ ih =>
      obtain ⟨limit, rfl⟩ := Nat.exists_eq_add_of_le' (Nat.le_of_add_left_le enough)
      rw [checkedWalk, if_neg other, found]
      exact ih (Nat.le_of_succ_le_succ enough)

/-- The walk along the owners ends within as many turns as there are elements, and every element on
the way is there.  So with a check at each turn it gives the answer of the walk without checks. -/
theorem Forest.checkedIsWithin_eq (forest : ix.Forest) {node : Handle} (known : ix.Knows node)
    (ancestor : Handle) : ix.checkedIsWithin node ancestor = some (ix.isWithin node ancestor) := by
  obtain ⟨turns, answer, walks⟩ := forest.exists_walks ancestor known
  rw [forest.isWithin_eq known walks]
  exact walks.checkedWalk_eq (forest.turns_le_size known walks)

namespace Coherent

/-- A handle that a key leads to is known. -/
theorem checkedFind_eq (coherent : ix.Coherent) (key : String) :
    ix.checkedFind key = some (ix.find? key) := by
  unfold checkedFind find?
  cases listed : ix.handle? key with
  | none => rfl
  | some h =>
      obtain ⟨e, found⟩ := knows_iff_get?.mp (.of_key? (coherent.handle?_iff.mp listed))
      simp [found]

/-- A handle in the list of projects is known, so the first of them can be read. -/
theorem checkedProject_eq (coherent : ix.Coherent) : ix.checkedProject = some ix.project? := by
  unfold checkedProject project?
  cases first : (ix.handlesOf .project)[0]? with
  | none => rfl
  | some h =>
      have listed : h ∈ (ix.handlesOf .project).toList :=
        Array.mem_toList_iff.mpr (Array.mem_of_getElem? first)
      obtain ⟨e, found⟩ := knows_iff_get?.mp (coherent.knows_of_mem listed)
      simp [found]

end Coherent

/-- The elements of known handles can be read. -/
theorem mapM_get?_eq {handles : List Handle} (known : ∀ h ∈ handles, ix.Knows h) :
    handles.mapM ix.get? = some (handles.filterMap ix.get?) := by
  induction handles with
  | nil => rfl
  | cons h rest ih =>
      obtain ⟨first, others⟩ := List.forall_mem_cons.mp known
      obtain ⟨e, found⟩ := knows_iff_get?.mp first
      rw [List.mapM_cons, ih others, List.filterMap_cons, found]
      rfl

/-- All children of an element can be read, because what an element lists as a child has it as its
owner, and what has an owner is there. -/
theorem Sound.checkedChildren_eq (sound : ix.Sound) (h : Handle) :
    ix.checkedChildren h = some (ix.children h) := by
  unfold checkedChildren children
  cases found : ix.get? h with
  | none => rfl
  | some e =>
      refine mapM_get?_eq fun child owned => ?_
      rw [← childrenOf_of_get? found, sound.mem_childrenOf_iff] at owned
      exact .of_parent? owned

theorem Sound.checkedMembers_eq (sound : ix.Sound) (key : String) (kind : Kind) :
    ix.checkedMembers key kind = some (ix.members key kind) := by
  unfold checkedMembers members
  cases ix.handle? key with
  | none => rfl
  | some h =>
      dsimp only
      rw [sound.checkedChildren_eq]
      rfl

theorem knows_new (ix : Index) (key : String) (kind : Kind) :
    (ix.insert key kind).2.Knows (ix.insert key kind).1 :=
  (knows_insert ..).mpr (.inr rfl)

/-- A new element can be linked to one that is known. -/
theorem checkedLink_insert (ownerKnown : ix.Knows owner) (key : String) (kind : Kind) :
    (ix.insert key kind).2.checkedLink owner (ix.insert key kind).1 =
      some ((ix.insert key kind).2.link owner (ix.insert key kind).1) :=
  checkedLink_eq ((knows_insert ..).mpr (.inl ownerKnown)) (ix.knows_new key kind)

/-- What a registration gives, with what the journal says about it. -/
def noted (ix : Index) (key : String) (kind : Kind) (parent : Option String) :
    Except IndexError (Handle × Index × List Note) :=
  (ix.register key kind parent).map fun (h, ix') => (h, ix', ix.registrationNotes key parent)

/-- A new element is linked to its owner, which is known or made before it.  Both are there by the
time they are linked: the owner by assumption or as a placeholder, the element itself because it was
just inserted. -/
theorem checkedRegister_of_fresh (coherent : ix.Coherent) (fresh : ix.handle? key = none) :
    ix.checkedRegister key kind parent = some (ix.noted key kind parent) := by
  have missing := coherent.find?_eq_none_iff.mpr fresh
  unfold checkedRegister noted register registrationNotes adoption
  rw [fresh, missing]
  cases parent.filter (· != key) with
  | none => rfl
  | some ownerKey =>
      dsimp only [ensureOwner]
      cases listed : ix.handle? ownerKey with
      | some owner =>
          dsimp only
          rw [checkedLink_insert (.of_key? (coherent.handle?_iff.mp listed))]
          rfl
      | none =>
          dsimp only
          rw [checkedLink_insert (ix.knows_new ownerKey .external)]
          rfl

/-! ### Elements that are registered again -/

section Known

variable {e : Element} {base : Index} {ownerKey : String}

/-- What becomes of an element that is registered again, once its kind is reconciled. -/
def adopted (base : Index) (key : String) (h : Handle) : Adoption → Index × List Note
  | .none => (base, [])
  | .circular ownerKey =>
    (base, [⟨.debug, s!"Ignoring parent {ownerKey} of {key}: ownership cycle"⟩])
  | .known owner => (base.link owner h, [])
  | .placeholder ownerKey =>
    let (owner, extended) := base.insert ownerKey .external
    (extended.link owner h, [⟨.debug, s!"Materializing external owner {ownerKey}"⟩])

/-- Registering a known key again comes down to two decisions, about the kind and about the owner.
-/
theorem noted_of_known (found : ix.find? key = some e) (merge : ix.mergeKind e kind = .ok base) :
    ix.noted key kind parent = .ok (e.handle, base.adopted key e.handle (ix.adoption key parent)) := by
  unfold noted register registrationNotes
  rw [found]
  simp only [merge]
  cases ix.adoption key parent <;> rfl

/-- An element that has an owner keeps it, whatever is reported. -/
theorem adoption_of_owned (found : ix.find? key = some e) (owned : e.parent.isSome = true) :
    ix.adoption key parent = .none := by
  unfold adoption
  split
  · rfl
  · rw [found]
    exact if_pos owned

/-- For an orphan the reported owner is looked up.  It becomes the owner unless it lies below the
orphan, and it is made as a placeholder if it is unknown. -/
theorem adoption_of_orphan (found : ix.find? key = some e) (orphan : e.parent = none)
    (reported : parent.filter (· != key) = some ownerKey) :
    ix.adoption key parent =
      match ix.handle? ownerKey with
      | none => .placeholder ownerKey
      | some owner => if ix.isWithin owner e.handle then .circular ownerKey else .known owner := by
  unfold adoption
  rw [reported, found]
  exact if_neg (by rw [orphan]; exact Bool.false_ne_true)

/-- An element that is registered again is linked to its owner, if it has none and the owner is not
one of its own. -/
theorem Placed.checkedAdopt_eq (placed : ix.Placed key kind h base) (sound : ix.Sound)
    (found : ix.find? key = some e) (same : e.handle = h)
    (handles : ∀ k, base.handle? k = ix.handle? k)
    (reported : parent.filter (· != key) = some ownerKey) :
    base.checkedAdopt key h ownerKey = some (base.adopted key h (ix.adoption key parent)) := by
  have soundBase : base.Sound := sound.moves placed.moves
  obtain ⟨known, -⟩ := sound.find?_eq_some_iff.mp found
  rw [same] at known
  obtain ⟨e', again⟩ := knows_iff_get?.mp (Knows.of_key? placed.key?)
  have kept : e'.parent = e.parent := by
    rw [← parent?_of_get? again, ← parent?_of_get? known, placed.parent?_eq]
  unfold checkedAdopt
  rw [again, Option.bind_eq_bind, Option.bind_some, kept]
  cases owned : e.parent with
  | some owner =>
      rw [adoption_of_owned found (by rw [owned]; rfl)]
      rfl
  | none =>
      have orphan : base.parent? h = none := by rw [parent?_of_get? again, kept, owned]
      rw [adoption_of_orphan found owned reported, same]
      dsimp only [ensureOwner]
      rw [handles]
      cases listed : ix.handle? ownerKey with
      | some owner =>
          have ownerKnown : ix.Knows owner := .of_key? (sound.handle?_iff.mp listed)
          have ownerKnown' : base.Knows owner := (Grows.of_moves placed.moves).knows ownerKnown
          have within : base.isWithin owner h = ix.isWithin owner h := by
            rw [Bool.eq_iff_iff, soundBase.isWithin_iff ownerKnown', sound.isWithin_iff ownerKnown,
              within_congr placed.parent?_eq]
          dsimp only
          rw [soundBase.checkedIsWithin_eq ownerKnown', within,
            checkedLink_eq ownerKnown' (.of_get? again)]
          cases ix.isWithin owner h <;> rfl
      | none =>
          have step : base.Moves (base.insert ownerKey .external).2 :=
            moves_insert (by rw [handles, listed])
          have soundNew := soundBase.moves step
          have childKnown := (Grows.of_moves step).knows (Knows.of_get? again)
          have ownerKnown := base.knows_new ownerKey .external
          -- the placeholder is new, so it has no owner
          have outside : (base.insert ownerKey .external).2.isWithin
              (base.insert ownerKey .external).1 h = false := by
            rw [← Bool.not_eq_true, soundNew.isWithin_iff ownerKnown]
            refine not_within_of_orphan ?_ (Knows.of_get? again).ne_size.symm
            rw [parent?_insert]
            exact parent?_new base
          dsimp only
          rw [soundNew.checkedIsWithin_eq ownerKnown, outside, checkedLink_eq ownerKnown childKnown]
          rfl

/-- Registering a known key again stays in range.  The element is read, its kind is reconciled, and
only then its owner is looked for, in an index with the same keys and owners but perhaps another
kind. -/
theorem checkedRegister_of_known (sound : ix.Sound) (listed : ix.handle? key = some h) :
    ix.checkedRegister key kind parent = some (ix.noted key kind parent) := by
  have named := sound.handle?_iff.mp listed
  obtain ⟨e, known⟩ := knows_iff_get?.mp (Knows.of_key? named)
  have found : ix.find? key = some e := by rw [find?, listed]; exact known
  have same : e.handle = h := sound.handle_eq known
  unfold checkedRegister
  rw [listed]
  dsimp only
  rw [checkedMergeKind_eq known same]
  cases merge : ix.mergeKind e kind with
  | error err =>
      unfold noted register
      rw [found]
      dsimp only
      rw [merge]
      rfl
  | ok base =>
      -- reconciling the kind leaves the table of keys alone, so the owner is looked up as before
      have placed := placed_of_mergeKind sound.toCoherent found merge
      have handles : ∀ k, base.handle? k = ix.handle? k := by
        intro k
        rcases mergeKind_cases merge with ⟨rfl, -⟩ | ⟨rfl, -⟩
        · rfl
        · exact handle?_promote ix e.handle k
      rw [noted_of_known found merge]
      cases reported : parent.filter (· != key) with
      | none =>
          have unreported : ix.adoption key parent = .none := by
            unfold adoption
            rw [reported]
          rw [unreported, same]
          rfl
      | some ownerKey =>
          have adopts := placed.checkedAdopt_eq sound found rfl handles reported
          rw [same] at adopts ⊢
          dsimp only [Option.bind_eq_bind, Option.bind_some]
          rw [adopts]
          rfl

/-- **A registration stays in range** on a sound index, and the one with checks gives what the one
without them gives. -/
theorem Sound.checkedRegister_eq (sound : ix.Sound) (key : String) (kind : Kind)
    (parent : Option String) :
    ix.checkedRegister key kind parent = some (ix.noted key kind parent) := by
  cases listed : ix.handle? key with
  | none => exact checkedRegister_of_fresh sound.toCoherent listed
  | some h => exact checkedRegister_of_known sound listed

end Known

end Index

end CodeMetrics
