import CodeMetrics.Proofs.Index.Ownership

/-!
# Operations of the index

A registration, an attachment and a placeholder are chains of elementary changes, provided that the
index they start from is `Index.Sound`: its secondary indexes agree with its elements, and ownership
is a forest.  So every operation keeps an index sound, and lets it only grow.

A registration is refused exactly when the key is known with a kind that does not fit the reported
one.  Otherwise it places the key, by keeping, promoting or inserting its element, and then links it
to an owner or leaves it where it is; `Index.Adopts` says when it does which.
-/

namespace CodeMetrics

namespace Index

/-- The secondary indexes agree with the elements, and ownership is a forest. -/
structure Sound (ix : Index) : Prop extends Coherent ix, Forest ix

namespace Sound

variable {ix ix' : Index}

/-- An index without elements is sound, because all its invariants are about elements. -/
theorem empty : Sound {} := ⟨.empty, .empty⟩

/-- Each elementary change keeps an index sound.  This is where the conditions of `Index.Move` are
used: an element is inserted under a new key, and linked only where no cycle comes about. -/
theorem move (sound : ix.Sound) (step : ix.Move ix') : ix'.Sound :=
  ⟨sound.toCoherent.move step, sound.toForest.move step⟩

/-- A chain of elementary changes keeps an index sound, and with it whatever an operation does that
is such a chain. -/
theorem moves (sound : ix.Sound) (steps : ix.Moves ix') : ix'.Sound := by
  induction steps with
  | refl => exact sound
  | tail _ step ih => exact ih.move step

end Sound

/-- The element of a handle is a type or a placeholder. -/
def IsTypeLevel (ix : Index) (h : Handle) : Prop :=
  ∃ kind, ix.kind? h = some kind ∧ kind.isTypeLevel = true

/-! ## Growth -/

/-- Nothing is lost: elements keep their handles and keys, kinds change only from placeholder to
type, an owner is never replaced, and children are only added. -/
structure Grows (ix ix' : Index) : Prop where
  key_kept : ∀ {h : Handle} {key : String}, ix.key? h = some key → ix'.key? h = some key
  kind_kept : ∀ {h : Handle} {kind : Kind}, ix.kind? h = some kind →
    ix'.kind? h = some kind ∨ kind = .external ∧ ix'.kind? h = some .type
  parent_kept : ∀ {h owner : Handle}, ix.parent? h = some owner → ix'.parent? h = some owner
  children_kept : ∀ h : Handle, ix.childrenOf h <+: ix'.childrenOf h

namespace Grows

variable {ix ix' ix'' : Index}

theorem refl (ix : Index) : ix.Grows ix where
  key_kept named := named
  kind_kept is := .inl is
  parent_kept owned := owned
  children_kept _ := List.prefix_rfl

/-- Growth is made up of steps: what an index has kept for a while, it keeps for longer. -/
theorem trans (first : ix.Grows ix') (second : ix'.Grows ix'') : ix.Grows ix'' where
  key_kept named := second.key_kept (first.key_kept named)
  kind_kept is := by
    rcases first.kind_kept is with kept | ⟨external, promoted⟩
    · exact second.kind_kept kept
    · rcases second.kind_kept promoted with kept | ⟨impossible, -⟩
      · exact .inr ⟨external, kept⟩
      · cases impossible
  parent_kept owned := second.parent_kept (first.parent_kept owned)
  children_kept h := (first.children_kept h).trans (second.children_kept h)

/-- A handle that was given out stays valid for ever. -/
theorem knows (grows : ix.Grows ix') {h : Handle} (known : ix.Knows h) : ix'.Knows h := by
  obtain ⟨key, named⟩ := knows_iff_key?.mp known
  exact .of_key? (grows.key_kept named)

/-- A type or placeholder stays one of the two, since the only change of a kind is that a
placeholder becomes a type. -/
theorem isTypeLevel (grows : ix.Grows ix') {h : Handle} (level : ix.IsTypeLevel h) :
    ix'.IsTypeLevel h := by
  obtain ⟨kind, is, level⟩ := level
  rcases grows.kind_kept is with kept | ⟨-, promoted⟩
  · exact ⟨kind, kept, level⟩
  · exact ⟨.type, promoted, rfl⟩

/-- A key leads to the same handle from its registration on. -/
theorem handle_kept (grows : ix.Grows ix') (coherent : ix.Coherent) (coherent' : ix'.Coherent)
    {key : String} {h : Handle} (listed : ix.handle? key = some h) : ix'.handle? key = some h :=
  coherent'.handle?_iff.mpr (grows.key_kept (coherent.handle?_iff.mp listed))

/-- Every elementary change is growth: keys and owners that are there are kept, kinds too unless a
placeholder becomes a type, and nothing is taken away. -/
theorem of_move (step : ix.Move ix') : ix.Grows ix' := by
  cases step with
  | insert fresh =>
      exact
        { key_kept := fun named => by rw [key?_insert, if_neg (Knows.of_key? named).ne_size, named]
          kind_kept := fun is => by
            rw [kind?_insert, if_neg (Knows.of_kind? is).ne_size, is]
            exact .inl rfl
          parent_kept := fun owned => by rw [parent?_insert, owned]
          children_kept := fun h => by rw [childrenOf_insert] }
  | @promote g external =>
      -- the only change of a kind: a placeholder becomes a type
      exact
        { key_kept := fun named => by rw [key?_promote, named]
          kind_kept := fun {h kind} is => by
            by_cases same : h = g
            · subst same
              rw [external, Option.some.injEq] at is
              exact .inr ⟨is.symm, kind?_promote_self ix h (.of_kind? external)⟩
            · rw [kind?_promote_of_ne ix g h same]
              exact .inl is
          parent_kept := fun owned => by rw [parent?_promote, owned]
          children_kept := fun h => by rw [childrenOf_promote] }
  | @link owner child ownerKnown _ orphan _ =>
      -- the child had no owner, so none is replaced
      exact
        { key_kept := fun named => by rw [key?_link, named]
          kind_kept := fun is => by rw [kind?_link]; exact .inl is
          parent_kept := fun {h p} owned => by
            have other : h ≠ child := by
              rintro rfl
              rw [orphan] at owned
              cases owned
            rw [parent?_link_of_ne ix owner child h other, owned]
          children_kept := fun h => by
            by_cases same : h = owner
            · subst same
              rw [childrenOf_link_self ix h child ownerKnown]
              exact List.prefix_append _ _
            · rw [childrenOf_link_of_ne ix owner child h same] }
  | attach _ =>
      exact
        { key_kept := fun named => by rw [key?_measured, named]
          kind_kept := fun is => by rw [kind?_measured]; exact .inl is
          parent_kept := fun owned => by rw [parent?_measured, owned]
          children_kept := fun h => by rw [childrenOf_measured] }

theorem of_moves (steps : ix.Moves ix') : ix.Grows ix' := by
  induction steps with
  | refl => exact .refl ix
  | tail _ step ih => exact ih.trans (.of_move step)

end Grows

/-! ## Ownership where nothing hangs below -/

/-- Ownership over several steps is determined by the owners alone, so two indexes with the same
owners agree on it. -/
theorem within_congr {ix ix' : Index} (parents : ∀ h, ix'.parent? h = ix.parent? h)
    {node ancestor : Handle} : ix'.Within node ancestor ↔ ix.Within node ancestor := by
  have same : ix'.Owns = ix.Owns := by
    funext owner child
    rw [Owns, Owns, parents]
  rw [Within, Within, same]

/-- An element without owner is within itself only. -/
theorem not_within_of_orphan {ix : Index} {node ancestor : Handle}
    (orphan : ix.parent? node = none) (other : node ≠ ancestor) : ¬ ix.Within node ancestor := by
  intro within
  rcases within.cases_tail with same | ⟨owner, -, owned⟩
  · exact other same
  · rw [Owns, orphan] at owned
    cases owned

/-- Nothing but itself is within an element that owns nothing. -/
theorem not_within_of_childless {ix : Index} {node ancestor : Handle}
    (childless : ∀ h, ix.parent? h ≠ some ancestor) (other : node ≠ ancestor) :
    ¬ ix.Within node ancestor := by
  intro within
  rcases within.cases_head with same | ⟨child, owned, -⟩
  · exact other same.symm
  · exact childless child owned

/-! ## Kinds that fit -/

end Index

/-- Two reports about one key fit together: they agree, or both are about a type that may be known
as a placeholder only. -/
def Kind.Fits (a b : Kind) : Prop := a = b ∨ a.isTypeLevel = true ∧ b.isTypeLevel = true

namespace Kind

/-- Two kinds can be the ends of dependencies: types, and placeholders for what may turn out to be
types. -/
theorem isTypeLevel_iff {a : Kind} : a.isTypeLevel = true ↔ a = .type ∨ a = .external := by
  cases a <;> decide

/-- A placeholder fits exactly what may have dependencies. -/
theorem fits_external_iff {a : Kind} : a.Fits .external ↔ a.isTypeLevel = true := by
  cases a <;> simp [Fits, isTypeLevel]

end Kind

namespace Index

variable {ix ix' : Index} {key : String} {kind : Kind} {parent : Option String} {h : Handle}

/-- A reported kind is the registered one or a weaker one, or it promotes a placeholder, or it does
not fit. -/
theorem mergeKind_eq (ix : Index) (e : Element) (kind : Kind) :
    ix.mergeKind e kind =
      if e.kind = kind ∨ e.kind = .type ∧ kind = .external then .ok ix
      else if e.kind = .external ∧ kind = .type then .ok (ix.promote e.handle)
      else .error (.kindConflict e.key e.kind kind) := by
  unfold mergeKind
  generalize e.kind = existing
  cases existing <;> cases kind <;> rfl

/-- What is reconciled with a reported kind is kept or promoted.  It is promoted only from a
placeholder to a type. -/
theorem mergeKind_cases {e : Element} {merged : Index} (ok : ix.mergeKind e kind = .ok merged) :
    merged = ix ∧ (e.kind = kind ∨ e.kind = .type ∧ kind = .external) ∨
      merged = ix.promote e.handle ∧ e.kind = .external ∧ kind = .type := by
  rw [mergeKind_eq] at ok
  split at ok
  · next kept =>
      cases ok
      exact .inl ⟨rfl, kept⟩
  · split at ok
    · next promoted =>
        cases ok
        exact .inr ⟨rfl, promoted⟩
    · cases ok

/-- Two kinds conflict exactly if the reported one does not fit.  The error names the key, the kind
that is known and the one that was reported. -/
theorem mergeKind_eq_error_iff {e : Element} {err : IndexError} :
    ix.mergeKind e kind = .error err ↔
      ¬ e.kind.Fits kind ∧ err = .kindConflict e.key e.kind kind := by
  have fits_iff : e.kind.Fits kind ↔
      (e.kind = kind ∨ e.kind = .type ∧ kind = .external) ∨
        e.kind = .external ∧ kind = .type := by
    generalize e.kind = existing
    cases existing <;> cases kind <;> simp [Kind.Fits, Kind.isTypeLevel]
  rw [mergeKind_eq, fits_iff]
  split
  · next kept => simp [kept]
  · next notKept =>
      split
      · next promoted => simp [promoted]
      · next notPromoted =>
          rw [Except.error.injEq, eq_comm]
          simp [notKept, notPromoted]

/-- A registration is refused exactly when the key is known with a kind that does not fit.  The
reported owner plays no part in this: an owner that cannot be had is ignored. -/
theorem register_eq_error_iff (coherent : ix.Coherent) {err : IndexError} :
    ix.register key kind parent = .error err ↔
      ∃ h existing, ix.handle? key = some h ∧ ix.kind? h = some existing ∧
        ¬ existing.Fits kind ∧ err = .kindConflict key existing kind := by
  unfold register
  split
  · next e found =>
      obtain ⟨known, named⟩ := coherent.find?_eq_some_iff.mp found
      have listed : ix.handle? key = some e.handle :=
        coherent.handle?_iff.mpr (by rw [key?_of_get? known, named])
      have is := kind?_of_get? known
      constructor
      · intro refused
        cases merge : ix.mergeKind e kind with
        | ok merged => rw [merge] at refused; cases refused
        | error err' =>
            rw [merge] at refused
            cases refused
            obtain ⟨misfit, rfl⟩ := mergeKind_eq_error_iff.mp merge
            exact ⟨e.handle, e.kind, listed, is, misfit, by rw [named]⟩
      · rintro ⟨h, existing, listed', is', misfit, rfl⟩
        rw [listed, Option.some.injEq] at listed'
        subst listed'
        rw [is, Option.some.injEq] at is'
        subst is'
        rw [mergeKind_eq_error_iff.mpr ⟨misfit, rfl⟩, named]
        rfl
  · next missing =>
      constructor
      · intro refused
        -- a new key is never refused
        split at refused <;> cases refused
      · rintro ⟨h, -, listed, -⟩
        rw [coherent.find?_eq_none_iff.mp missing] at listed
        cases listed

/-! ## Owners -/

/-- The reported owner, if there is one, is known. -/
def OwnerKnown (ix : Index) (parent : Option String) : Prop :=
  ∀ ownerKey, parent = some ownerKey → ∃ owner, ix.key? owner = some ownerKey

/-- Where no owner is reported, there is none that could be unknown. -/
theorem OwnerKnown.unreported (ix : Index) : ix.OwnerKnown none := by
  rintro _ ⟨⟩

theorem OwnerKnown.of_key? {ownerKey : String} {owner : Handle}
    (named : ix.key? owner = some ownerKey) : ix.OwnerKnown (some ownerKey) := by
  rintro _ ⟨⟩
  exact ⟨owner, named⟩

/-- What becomes of a reported owner, and when. -/
inductive Adopts (ix : Index) (key : String) (parent : Option String) : Adoption → Prop where
  /-- No owner is reported, or the element itself. -/
  | unreported (none_left : parent.filter (· != key) = none) : Adopts ix key parent .none
  /-- There is an owner already. -/
  | owned {e : Element} (found : ix.find? key = some e) (owned : e.parent ≠ none) :
      Adopts ix key parent .none
  /-- The owner is taken by an element that has none and does not own it. -/
  | known {ownerKey : String} {owner : Handle} (reported : parent = some ownerKey)
      (listed : ix.handle? ownerKey = some owner)
      (allowed : ∀ e, ix.find? key = some e →
        e.parent = none ∧ ¬ ix.isWithin owner e.handle = true) :
      Adopts ix key parent (.known owner)
  /-- The owner is not known. -/
  | placeholder {ownerKey : String} (reported : parent = some ownerKey) (other : ownerKey ≠ key)
      (unlisted : ix.handle? ownerKey = none)
      (orphan : ∀ e, ix.find? key = some e → e.parent = none) :
      Adopts ix key parent (.placeholder ownerKey)
  /-- The element owns its reported owner. -/
  | circular {ownerKey : String} {owner : Handle} {e : Element} (reported : parent = some ownerKey)
      (listed : ix.handle? ownerKey = some owner) (found : ix.find? key = some e)
      (within : ix.isWithin owner e.handle = true) : Adopts ix key parent (.circular ownerKey)

/-- The decision about the owner of a registration is always one of four: none is reported or
wanted, it would be circular, it is known, or a placeholder has to be made for it. -/
theorem adopts (ix : Index) (key : String) (parent : Option String) :
    ix.Adopts key parent (ix.adoption key parent) := by
  unfold adoption
  split
  · next none_left => exact .unreported none_left
  · next ownerKey reported =>
      obtain ⟨reported, other⟩ := Option.filter_eq_some_iff.mp reported
      have other : ownerKey ≠ key := by simpa using other
      split
      · next missing unlisted =>
          exact .placeholder reported other unlisted (by simp [missing])
      · next missing listed => exact .known reported listed (by simp [missing])
      · next e found =>
          split
          · next owned => exact .owned found (by simpa [Option.isSome_iff_ne_none] using owned)
          · next orphan =>
              have orphan : e.parent = none := by simpa using orphan
              split
              · next unlisted =>
                  exact .placeholder reported other unlisted (by simp [found, orphan])
              · next listed =>
                  split
                  · next within => exact .circular reported listed found within
                  · next outside => exact .known reported listed (by simp [found, orphan, outside])

/-- Where the reported owner is known, no placeholder is made. -/
theorem adoption_ne_placeholder (coherent : ix.Coherent) (ownerKnown : ix.OwnerKnown parent)
    (ownerKey : String) : ix.adoption key parent ≠ .placeholder ownerKey := by
  intro placeholder
  have adopts := ix.adopts key parent
  rw [placeholder] at adopts
  cases adopts with
  | placeholder reported _ unlisted _ =>
      obtain ⟨owner, named⟩ := ownerKnown ownerKey reported
      rw [coherent.handle?_iff.mpr named] at unlisted
      cases unlisted

/-! ## Placing a key -/

/-- How a registration provides the element of its key, before any owner is linked. -/
inductive Placed (ix : Index) (key : String) (kind : Kind) : Handle → Index → Prop where
  | kept {h : Handle} {existing : Kind} (named : ix.key? h = some key)
      (is : ix.kind? h = some existing)
      (fits : existing = kind ∨ existing = .type ∧ kind = .external) : Placed ix key kind h ix
  | promoted {h : Handle} (named : ix.key? h = some key) (is : ix.kind? h = some .external)
      (reported : kind = .type) : Placed ix key kind h (ix.promote h)
  | inserted (fresh : ix.handle? key = none) : Placed ix key kind ⟨ix.size⟩ (ix.insert key kind).2

namespace Placed

variable {base : Index}

/-- Placing a key is a chain of elementary changes: none at all, a promotion, or an insertion. -/
theorem moves (placed : ix.Placed key kind h base) : ix.Moves base := by
  cases placed with
  | kept _ _ _ => exact .refl
  | promoted _ is _ => exact .single (.promote is)
  | inserted fresh => exact .single (.insert fresh)

/-- The handle that a key is placed at has this key afterwards. -/
theorem key? (placed : ix.Placed key kind h base) : base.key? h = some key := by
  cases placed with
  | kept named _ _ => exact named
  | promoted named _ _ => rw [key?_promote, named]
  | inserted _ => rw [key?_insert, if_pos rfl]

/-- Placing a key gives no owner to anything; the owner is settled in a step of its own. -/
theorem parent?_eq (placed : ix.Placed key kind h base) (g : Handle) :
    base.parent? g = ix.parent? g := by
  cases placed with
  | kept _ _ _ => rfl
  | promoted _ _ _ => exact parent?_promote ix h g
  | inserted _ => exact parent?_insert ix key kind g

/-- Placing a key leaves all measures alone. -/
theorem measuresOf_eq (placed : ix.Placed key kind h base) (g : Handle) :
    base.measuresOf g = ix.measuresOf g := by
  cases placed with
  | kept _ _ _ => rfl
  | promoted _ _ _ => exact measuresOf_promote ix h g
  | inserted _ => exact measuresOf_insert ix key kind g

/-- Placing a key changes no kind but that of its own handle. -/
theorem kind?_eq_of_ne (placed : ix.Placed key kind h base) {g : Handle} (other : g ≠ h) :
    base.kind? g = ix.kind? g := by
  cases placed with
  | kept _ _ _ => rfl
  | promoted _ _ _ => exact kind?_promote_of_ne ix h g other
  | inserted _ => rw [kind?_insert, if_neg other]

theorem key?_eq_of_ne (placed : ix.Placed key kind h base) {g : Handle} (other : g ≠ h) :
    base.key? g = ix.key? g := by
  cases placed with
  | kept _ _ _ => rfl
  | promoted _ _ _ => exact key?_promote ix h g
  | inserted _ => rw [key?_insert, if_neg other]

/-- If the key was there before, its handle had it then, too. -/
theorem key?_of_knows (placed : ix.Placed key kind h base) (known : ix.Knows h) :
    ix.key? h = some key := by
  cases placed with
  | kept named _ _ => exact named
  | promoted named _ _ => exact named
  | inserted _ => exact absurd known (not_knows_size ix)

/-- The element has the reported kind, unless it is a type and was reported as a placeholder. -/
theorem kind? (placed : ix.Placed key kind h base) :
    base.kind? h = some kind ∨ base.kind? h = some .type ∧ kind = .external := by
  cases placed with
  | kept _ is fits =>
      rcases fits with rfl | ⟨rfl, reported⟩
      · exact .inl is
      · exact .inr ⟨is, reported⟩
  | promoted _ is reported =>
      rw [reported]
      exact .inl (kind?_promote_self ix h (.of_kind? is))
  | inserted _ => rw [kind?_insert, if_pos rfl]; exact .inl rfl

/-- No other kind than the reported one comes up. -/
theorem kind?_cases (placed : ix.Placed key kind h base) {existing : Kind}
    (is : base.kind? h = some existing) : ix.kind? h = some existing ∨ existing = kind := by
  cases placed with
  | kept _ _ _ => exact .inl is
  | promoted _ before reported =>
      rw [kind?_promote_self ix h (.of_kind? before), Option.some.injEq] at is
      rw [reported]
      exact .inr is.symm
  | inserted _ =>
      rw [kind?_insert, if_pos rfl, Option.some.injEq] at is
      exact .inr is.symm

end Placed

/-- An element that is found and reconciled is placed. -/
theorem placed_of_mergeKind (coherent : ix.Coherent) {e : Element} {merged : Index}
    (found : ix.find? key = some e) (ok : ix.mergeKind e kind = .ok merged) :
    ix.Placed key kind e.handle merged := by
  obtain ⟨known, named⟩ := coherent.find?_eq_some_iff.mp found
  have named : ix.key? e.handle = some key := by rw [key?_of_get? known, named]
  have is := kind?_of_get? known
  rcases mergeKind_cases ok with ⟨rfl, fits⟩ | ⟨rfl, external, reported⟩
  · exact .kept named is fits
  · exact .promoted named (by rw [is, external]) reported

/-! ## Registration -/

/-- A placed orphan is linked to an owner outside of what it owns. -/
theorem Placed.link_moves {base : Index} {owner : Handle} (placed : ix.Placed key kind h base)
    (ownerKnown : base.Knows owner) (orphan : ix.parent? h = none) (apart : ¬ ix.Within owner h) :
    ix.Moves (base.link owner h) := by
  refine placed.moves.tail (.link ownerKnown (.of_key? placed.key?) ?_ ?_)
  · rw [placed.parent?_eq, orphan]
  · rw [within_congr placed.parent?_eq]
    exact apart

/-- The next handle to be given out has no owner, since it has no element. -/
theorem parent?_new (ix : Index) : ix.parent? ⟨ix.size⟩ = none := by
  rw [parent?, get?_eq_none_iff.mpr (not_knows_size ix)]
  rfl

/-- No known element lies below the next handle to be given out.  So a new element can be linked to
any known owner, without making a cycle. -/
theorem not_within_new (forest : ix.Forest) {owner : Handle} (known : ix.Knows owner) :
    ¬ ix.Within owner ⟨ix.size⟩ :=
  not_within_of_childless (fun _ owned => not_knows_size ix (forest.owner_known owned))
    known.ne_size

/-- An insertion under a new key is an elementary change. -/
theorem moves_insert (fresh : ix.handle? key = none) : ix.Moves (ix.insert key kind).2 :=
  .single (.insert fresh)

/-- A new element has neither owner nor children, so it may be linked to any other one. -/
theorem insert_link_moves (forest : ix.Forest) (fresh : ix.handle? key = none) {owner : Handle}
    (known : ix.Knows owner) : ix.Moves ((ix.insert key kind).2.link owner ⟨ix.size⟩) := by
  refine Placed.link_moves (.inserted fresh) ?_ ?_ (not_within_new forest known)
  · exact (knows_insert ix key kind owner).mpr (.inl known)
  · exact parent?_new ix

/-- A placed orphan is linked to a placeholder that is made for it.  The placeholder is new and has
no owner, so the link closes no cycle. -/
theorem Placed.placeholder_moves {base : Index} {ownerKey : String}
    (placed : ix.Placed key kind h base) (fresh : base.handle? ownerKey = none)
    (orphan : ix.parent? h = none) :
    ix.Moves ((base.insert ownerKey .external).2.link ⟨base.size⟩ h) := by
  have childKnown : base.Knows h := .of_key? placed.key?
  have newOrphan : (base.insert ownerKey .external).2.parent? ⟨base.size⟩ = none := by
    rw [parent?_insert, parent?_new]
  refine (placed.moves.trans (moves_insert fresh)).tail (.link ?_ ?_ ?_ ?_)
  · exact (knows_insert base ownerKey .external _).mpr (.inr rfl)
  · exact (knows_insert base ownerKey .external _).mpr (.inl childKnown)
  · rw [parent?_insert, placed.parent?_eq, orphan]
  · exact not_within_of_orphan newOrphan childKnown.ne_size.symm

/-- A registration is a chain of elementary changes.  Its key is placed first; then the owner is
known and linked, or made as a placeholder and linked, or ignored.  In each case the conditions of a
link are those that the operation has tested. -/
theorem register_moves (sound : ix.Sound) (ok : ix.register key kind parent = .ok (h, ix')) :
    ix.Moves ix' := by
  unfold register at ok
  have adopts := ix.adopts key parent
  generalize ix.adoption key parent = adopted at adopts ok
  split at ok
  · next e found =>
      cases merge : ix.mergeKind e kind with
      | error err => rw [merge] at ok; cases ok
      | ok merged =>
          have placed := placed_of_mergeKind sound.toCoherent found merge
          have orphan_of (orphan : e.parent = none) : ix.parent? e.handle = none := by
            rw [parent?_of_get? (sound.find?_eq_some_iff.mp found).1, orphan]
          rw [merge, Except.map, Except.ok.injEq] at ok
          cases adopts with
          | unreported _ => cases ok; exact placed.moves
          | owned _ _ => cases ok; exact placed.moves
          | circular _ _ _ _ => cases ok; exact placed.moves
          | @known _ owner _ listed allowed =>
              cases ok
              obtain ⟨orphan, apart⟩ := allowed e found
              have ownerKnown : ix.Knows owner := .of_key? (sound.handle?_iff.mp listed)
              rw [sound.isWithin_iff ownerKnown] at apart
              exact placed.link_moves ((Grows.of_moves placed.moves).knows ownerKnown)
                (orphan_of orphan) apart
          | placeholder _ _ unlisted orphan =>
              cases ok
              refine placed.placeholder_moves ?_ (orphan_of (orphan e found))
              rcases mergeKind_cases merge with ⟨rfl, -⟩ | ⟨rfl, -⟩
              · exact unlisted
              · exact unlisted
  · next missing =>
      have fresh := sound.find?_eq_none_iff.mp missing
      cases adopts with
      | unreported _ => cases ok; exact moves_insert fresh
      | owned _ _ => cases ok; exact moves_insert fresh
      | circular _ _ _ _ => cases ok; exact moves_insert fresh
      | known _ listed _ =>
          cases ok
          exact insert_link_moves sound.toForest fresh (.of_key? (sound.handle?_iff.mp listed))
      | @placeholder ownerKey _ other unlisted _ =>
          cases ok
          -- the owner comes first
          have step : ix.Moves (ix.insert ownerKey .external).2 := moves_insert unlisted
          refine step.trans (insert_link_moves (sound.moves step).toForest ?_ ?_)
          · rw [handle?_insert, if_neg other, fresh]
          · exact (knows_insert ix ownerKey .external _).mpr (.inr rfl)

/-- A registration attaches nothing.  This needs no invariant: each of the steps it is made of
leaves all measures alone, whatever the index looks like. -/
theorem measuresOf_register (ok : ix.register key kind parent = .ok (h, ix')) (g : Handle) :
    ix'.measuresOf g = ix.measuresOf g := by
  unfold register at ok
  split at ok
  · next e found =>
      cases merge : ix.mergeKind e kind with
      | error err => rw [merge] at ok; cases ok
      | ok merged =>
          have kept : merged.measuresOf g = ix.measuresOf g := by
            rcases mergeKind_cases merge with ⟨rfl, -⟩ | ⟨rfl, -⟩
            · rfl
            · exact measuresOf_promote ix e.handle g
          rw [merge, Except.map, Except.ok.injEq] at ok
          generalize ix.adoption key parent = adopted at ok
          cases adopted with
          | none => cases ok; exact kept
          | circular _ => cases ok; exact kept
          | known owner => cases ok; exact (measuresOf_link _ _ _ g).trans kept
          | placeholder ownerKey =>
              cases ok
              have owner := measuresOf_insert merged ownerKey .external g
              exact (measuresOf_link _ _ _ g).trans (owner.trans kept)
  · generalize ix.adoption key parent = adopted at ok
    cases adopted with
    | none => cases ok; exact measuresOf_insert ix key kind g
    | circular _ => cases ok; exact measuresOf_insert ix key kind g
    | known owner =>
        cases ok
        exact (measuresOf_link _ _ _ g).trans (measuresOf_insert ix key kind g)
    | placeholder ownerKey =>
        cases ok
        -- two insertions: the owner comes first, since its handle is needed for the link
        have owner := measuresOf_insert ix ownerKey .external g
        have element := measuresOf_insert (ix.insert ownerKey .external).2 key kind g
        exact (measuresOf_link _ _ _ g).trans (element.trans owner)

/-- The index after an owner that is known has been dealt with. -/
def settle (base : Index) (h : Handle) : Adoption → Index
  | .known owner => base.link owner h
  | _ => base

section Settle

variable (base : Index) (g : Handle) (adopted : Adoption)

/-- Settling the owner changes no kind, so the lists of the kinds stay as they are. -/
@[simp] theorem handlesOf_settle (kind : Kind) :
    (base.settle h adopted).handlesOf kind = base.handlesOf kind := by
  cases adopted <;> rfl

@[simp] theorem key?_settle : (base.settle h adopted).key? g = base.key? g := by
  cases adopted <;> simp [settle]

@[simp] theorem kind?_settle : (base.settle h adopted).kind? g = base.kind? g := by
  cases adopted <;> simp [settle]

@[simp] theorem measuresOf_settle : (base.settle h adopted).measuresOf g = base.measuresOf g := by
  cases adopted <;> simp [settle]

/-- Settling the owner of an element gives an owner to nothing else. -/
theorem parent?_settle_of_ne (other : g ≠ h) :
    (base.settle h adopted).parent? g = base.parent? g := by
  cases adopted <;> simp [settle, parent?_link_of_ne, other]

end Settle

/-- Where no placeholder is needed for the owner, a registration places its key and settles it.
These two steps are what proofs about runs look at, since a scan registers owners before what they
own. -/
theorem register_placed (coherent : ix.Coherent)
    (known : ∀ ownerKey, ix.adoption key parent ≠ .placeholder ownerKey)
    (ok : ix.register key kind parent = .ok (h, ix')) :
    ∃ base, ix.Placed key kind h base ∧ ix' = base.settle h (ix.adoption key parent) := by
  unfold register at ok
  split at ok
  · next e found =>
      cases merge : ix.mergeKind e kind with
      | error err => rw [merge] at ok; cases ok
      | ok merged =>
          have placed := placed_of_mergeKind coherent found merge
          rw [merge, Except.map, Except.ok.injEq] at ok
          cases adopted : ix.adoption key parent with
          | placeholder ownerKey => exact absurd adopted (known ownerKey)
          | none => rw [adopted] at ok; cases ok; exact ⟨_, placed, rfl⟩
          | known owner => rw [adopted] at ok; cases ok; exact ⟨_, placed, rfl⟩
          | circular ownerKey => rw [adopted] at ok; cases ok; exact ⟨_, placed, rfl⟩
  · next missing =>
      have placed : ix.Placed key kind ⟨ix.size⟩ (ix.insert key kind).2 :=
        .inserted (coherent.find?_eq_none_iff.mp missing)
      cases adopted : ix.adoption key parent with
      | placeholder ownerKey => exact absurd adopted (known ownerKey)
      | none => rw [adopted] at ok; cases ok; exact ⟨_, placed, rfl⟩
      | known owner => rw [adopted] at ok; cases ok; exact ⟨_, placed, rfl⟩
      | circular ownerKey => rw [adopted] at ok; cases ok; exact ⟨_, placed, rfl⟩

/-! ## The other operations -/

/-- Making a placeholder for an unknown key is a chain of elementary changes, like every
registration. -/
theorem registerExternal_moves (ix : Index) (key : String) :
    ix.Moves (ix.registerExternal key).2 := by
  unfold registerExternal
  split
  · exact .refl
  · next fresh => exact moves_insert fresh

/-- A measure is attached wherever the handle is known.  There is no other way to fail, and the
error names the handle. -/
theorem attachTo_eq (ix : Index) (h : Handle) (name : String) (value : Measure) :
    ix.attachTo h name value =
      if h.slot < ix.size then .ok (ix.measured h name value) else .error (.unknownHandle h) := rfl

/-- Attaching a measure to a known handle succeeds. -/
theorem attachTo_of_knows (known : ix.Knows h) (name : String) (value : Measure) :
    ix.attachTo h name value = .ok (ix.measured h name value) :=
  if_pos known

theorem attachTo_moves {name : String} {value : Measure}
    (ok : ix.attachTo h name value = .ok ix') : ix.Moves ix' := by
  rw [attachTo_eq] at ok
  split at ok
  · next known =>
      cases ok
      exact .single (.attach known)
  · cases ok

/-- Attaching a measure by key is an elementary change wherever it succeeds. -/
theorem attach_moves {name : String} {value : Measure}
    (ok : ix.attach key name value = .ok ix') : ix.Moves ix' := by
  unfold attach at ok
  split at ok
  · exact attachTo_moves ok
  · cases ok

end Index

end CodeMetrics
