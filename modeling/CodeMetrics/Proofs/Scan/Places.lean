import CodeMetrics.Proofs.Index.Records
import CodeMetrics.Proofs.Scan.Deeds

/-!
# The places of elements

In a model that is made of classes only, the project is at the top, the packages are below it, the
types are in their packages, and the members in their types.  A placeholder stands alone: it has
neither an owner nor children until its class turns up.

`Index.Shaped` says so of an index, for given classes.  Whatever is registered finds its place at
once (`Index.Shaped.orphan`, `Index.Shaped.settle`), and what has its place keeps it, since an owner
is never replaced.
-/

namespace CodeMetrics

/-- The kinds of elements that are owned from the start. -/
def Kind.isOwned : Kind → Bool
  | .package | .type | .method | .field => true
  | _ => false

/-! ## Places -/

namespace Index

/-- The element that owns the types of a package, or those without one. -/
def Houses (ix : Index) (owner : Handle) : Option String → Prop
  | some package => ix.key? owner = some package ∧ ix.kind? owner = some .package
  | none => ix.kind? owner = some .project

/-- The place of an element among the others.  The project has the key `root`, and types and members
are those of the classes. -/
def Belongs (ix : Index) (root : String) (cs : List ClassFacts) (h : Handle) (key : String) :
    Kind → Prop
  | .project => key = root ∧ ix.parent? h = none
  | .package => ∃ owner, ix.parent? h = some owner ∧ ix.kind? owner = some .project
  | .file => False
  | .type => (∃ c ∈ cs, c.key = key) ∧
      ∃ owner, ix.parent? h = some owner ∧ ix.Houses owner (Key.package? key)
  | .method => ∃ c ∈ cs, ∃ m ∈ c.methods, key = c.methodKey m ∧
      ∃ owner, ix.parent? h = some owner ∧ ix.IsType owner c.key
  | .field => ∃ c ∈ cs, ∃ f ∈ c.fields, key = c.fieldKey f ∧
      ∃ owner, ix.parent? h = some owner ∧ ix.IsType owner c.key
  | .external => ix.parent? h = none

/-- Every element has its place. -/
structure Shaped (ix : Index) (root : String) (cs : List ClassFacts) : Prop where
  place : ∀ {h : Handle} {key : String} {kind : Kind}, ix.key? h = some key →
    ix.kind? h = some kind → ix.Belongs root cs h key kind

variable {ix ix' base : Index} {root key : String} {cs cs' : List ClassFacts} {kind : Kind}
  {h owner : Handle}

/-- A kind that no placeholder has is kept for good. -/
theorem Grows.definite_kept (grows : ix.Grows ix') (is : ix.kind? h = some kind)
    (definite : kind ≠ .external) : ix'.kind? h = some kind :=
  (grows.kind_kept is).resolve_right fun promoted => definite promoted.1

theorem Houses.grows {package : Option String} (houses : ix.Houses owner package)
    (grows : ix.Grows ix') : ix'.Houses owner package := by
  cases package with
  | none => exact grows.definite_kept houses (by decide)
  | some package => exact ⟨grows.key_kept houses.1, grows.definite_kept houses.2 (by decide)⟩

namespace Belongs

/-- An element that keeps its owner keeps its place, because keys and kinds of owners do not change
in a way that would matter. -/
theorem grows (belongs : ix.Belongs root cs h key kind) (grows : ix.Grows ix')
    (same : ix'.parent? h = ix.parent? h) : ix'.Belongs root cs h key kind := by
  cases kind with
  | project => exact ⟨belongs.1, same.trans belongs.2⟩
  | package =>
      obtain ⟨owner, owned, is⟩ := belongs
      exact ⟨owner, same.trans owned, grows.definite_kept is (by decide)⟩
  | file => exact belongs
  | type =>
      obtain ⟨accepted, owner, owned, houses⟩ := belongs
      exact ⟨accepted, owner, same.trans owned, houses.grows grows⟩
  | method =>
      obtain ⟨c, listed, m, declared, named, owner, owned, type⟩ := belongs
      exact ⟨c, listed, m, declared, named, owner, same.trans owned, type.grows grows⟩
  | field =>
      obtain ⟨c, listed, f, declared, named, owner, owned, type⟩ := belongs
      exact ⟨c, listed, f, declared, named, owner, same.trans owned, type.grows grows⟩
  | external => exact same.trans belongs

/-- An element that belongs to its place does so whatever further classes there are. -/
theorem mono (belongs : ix.Belongs root cs h key kind) (more : cs ⊆ cs') :
    ix.Belongs root cs' h key kind := by
  cases kind with
  | type =>
      obtain ⟨⟨c, listed, named⟩, owned⟩ := belongs
      exact ⟨⟨c, more listed, named⟩, owned⟩
  | method =>
      obtain ⟨c, listed, facts⟩ := belongs
      exact ⟨c, more listed, facts⟩
  | field =>
      obtain ⟨c, listed, facts⟩ := belongs
      exact ⟨c, more listed, facts⟩
  | _ => exact belongs

/-- Nothing is owned by a placeholder or by a member.  An owner is the project, a package or a type,
according to the kind of what it owns. -/
theorem owner_kind (belongs : ix.Belongs root cs h key kind) (owned : ix.parent? h = some owner) :
    ∃ above, ix.kind? owner = some above ∧
      (above = .project ∨ above = .package ∨ above = .type) := by
  cases kind with
  | project => rw [belongs.2] at owned; cases owned
  | package =>
      obtain ⟨p, owned', is⟩ := belongs
      cases owned.symm.trans owned'
      exact ⟨_, is, .inl rfl⟩
  | file => exact belongs.elim
  | type =>
      obtain ⟨-, p, owned', houses⟩ := belongs
      cases owned.symm.trans owned'
      cases packaged : Key.package? key with
      | none => rw [packaged] at houses; exact ⟨_, houses, .inl rfl⟩
      | some package => rw [packaged] at houses; exact ⟨_, houses.2, .inr (.inl rfl)⟩
  | method =>
      obtain ⟨c, -, m, -, -, p, owned', type⟩ := belongs
      cases owned.symm.trans owned'
      exact ⟨_, type.2, .inr (.inr rfl)⟩
  | field =>
      obtain ⟨c, -, f, -, -, p, owned', type⟩ := belongs
      cases owned.symm.trans owned'
      exact ⟨_, type.2, .inr (.inr rfl)⟩
  | external => rw [show ix.parent? h = none from belongs] at owned; cases owned

/-- Packages, types and members in their places have owners. -/
theorem owned (belongs : ix.Belongs root cs h key kind) (isOwned : kind.isOwned = true) :
    ∃ owner, ix.parent? h = some owner := by
  cases kind with
  | package => exact ⟨_, belongs.choose_spec.1⟩
  | type => exact ⟨_, belongs.2.choose_spec.1⟩
  | method =>
      obtain ⟨c, -, m, -, -, p, owned, -⟩ := belongs
      exact ⟨p, owned⟩
  | field =>
      obtain ⟨c, -, f, -, -, p, owned, -⟩ := belongs
      exact ⟨p, owned⟩
  | _ => cases isOwned

end Belongs

/-- An element that is owned from the start is placed with the reported kind. -/
theorem Placed.kind?_of_isOwned (placed : ix.Placed key kind h base)
    (isOwned : kind.isOwned = true) : base.kind? h = some kind := by
  refine placed.kind?.resolve_right fun weaker => ?_
  rw [weaker.2] at isOwned
  cases isOwned

namespace Shaped

theorem empty (root : String) (cs : List ClassFacts) : ({} : Index).Shaped root cs where
  place named _ := absurd (Knows.of_key? named) (Nat.not_lt_zero _)

theorem mono (shaped : ix.Shaped root cs) (more : cs ⊆ cs') : ix.Shaped root cs' where
  place named is := (shaped.place named is).mono more

/-- Only the keys, the kinds and the owners matter. -/
theorem reshape (shaped : ix.Shaped root cs) (grows : ix.Grows ix')
    (keys : ∀ h, ix'.key? h = ix.key? h) (kinds : ∀ h, ix'.kind? h = ix.kind? h)
    (parents : ∀ h, ix'.parent? h = ix.parent? h) : ix'.Shaped root cs where
  place {h key kind} named is := by
    rw [keys] at named
    rw [kinds] at is
    exact (shaped.place named is).grows grows (parents h)

theorem owner_kind (shaped : ix.Shaped root cs) (owned : ix.parent? h = some owner) :
    ∃ above, ix.kind? owner = some above ∧
      (above = .project ∨ above = .package ∨ above = .type) := by
  obtain ⟨key, named⟩ := knows_iff_key?.mp (Knows.of_parent? owned)
  obtain ⟨kind, is⟩ := knows_iff_kind?.mp (Knows.of_parent? owned)
  exact (shaped.place named is).owner_kind owned

/-- What is placed without an owner: the project, or a placeholder.  Both belong where they are. -/
theorem orphan (shaped : ix.Shaped root cs) (placed : ix.Placed key kind h base)
    (free : kind = .external ∨ kind = .project ∧ key = root) : base.Shaped root cs := by
  have grows := Grows.of_moves placed.moves
  cases placed with
  | kept _ _ _ => exact shaped
  | promoted _ _ reported =>
      rcases free with rfl | ⟨rfl, -⟩ <;> cases reported
  | inserted fresh =>
      refine ⟨fun {g k K} named is => ?_⟩
      by_cases new : g = ⟨ix.size⟩
      · subst new
        rw [key?_insert, if_pos rfl, Option.some.injEq] at named
        rw [kind?_insert, if_pos rfl, Option.some.injEq] at is
        subst named is
        have orphan : (ix.insert key kind).2.parent? ⟨ix.size⟩ = none := by
          rw [parent?_insert, parent?_new]
        rcases free with rfl | ⟨rfl, isRoot⟩
        · exact orphan
        · exact ⟨isRoot, orphan⟩
      · rw [key?_insert, if_neg new] at named
        rw [kind?_insert, if_neg new] at is
        exact (shaped.place named is).grows grows (parent?_insert ..)

/-- What has neither an owner nor children gets the owner that it is placed below.  Nothing lies
below it, so the link cannot be circular. -/
theorem parent?_settle_of_orphan {ownerKey : String} (sound : ix.Sound)
    (placed : ix.Placed key kind h base) (ownerNamed : ix.key? owner = some ownerKey)
    (apart : owner ≠ h) (orphan : ix.parent? h = none) (childless : ∀ g, ix.parent? g ≠ some h) :
    (base.settle h (ix.adoption key (some ownerKey))).parent? h = some owner := by
  have other : ownerKey ≠ key := by
    rintro rfl
    refine apart ?_
    exact (sound.moves placed.moves).key?_injective
      ((Grows.of_moves placed.moves).key_kept ownerNamed) placed.key?
  rcases Records.settled sound placed ownerNamed rfl other with owned | within
  · obtain ⟨p, owned⟩ := Option.ne_none_iff_exists'.mp owned
    rcases Records.parent?_settle_cases sound placed owned with before | ⟨-, k, reported, named⟩
    · rw [orphan] at before
      cases before
    · cases reported
      rw [owned, sound.key?_injective named ownerNamed]
  · -- nothing hangs below it, so its owner does not
    refine absurd within (not_within_of_childless (fun g owned => ?_) apart)
    rcases Records.parent?_settle_cases sound placed owned with before | ⟨-, k, reported, named⟩
    · exact childless g before
    · cases reported
      exact apart (sound.key?_injective ownerNamed named)

section Owned

variable {ownerKey : String} (shaped : ix.Shaped root cs) (sound : ix.Sound)
  (placed : ix.Placed key kind h base) (isOwned : kind.isOwned = true)
include shaped sound placed isOwned

/-- An element that had a place has an owner; one that is new to its kind has none yet. -/
theorem parent?_of_placed :
    ix.key? h = some key ∧ ix.kind? h = some kind ∨
      ix.parent? h = none ∧ ∀ g, ix.parent? g ≠ some h := by
  cases placed with
  | @kept _ existing named is fits =>
      rcases fits with rfl | ⟨-, external⟩
      · exact .inl ⟨named, is⟩
      · rw [external] at isOwned
        cases isOwned
  | promoted named is _ =>
      refine .inr ⟨shaped.place named is, fun g owned => ?_⟩
      obtain ⟨above, is', possible⟩ := shaped.owner_kind owned
      cases is.symm.trans is'
      rcases possible with impossible | impossible | impossible <;> cases impossible
  | inserted _ =>
      exact .inr ⟨parent?_new ix, fun g owned => not_knows_size ix (sound.owner_known owned)⟩

/-- What is placed below a known owner of another kind keeps the shape, provided that it belongs
there once it has this owner. -/
theorem settle (ownerNamed : ix.key? owner = some ownerKey) {above : Kind}
    (ownerIs : ix.kind? owner = some above) (misfit : ¬ above.Fits kind)
    (grows : ix.Grows (base.settle h (ix.adoption key (some ownerKey))))
    (new : (base.settle h (ix.adoption key (some ownerKey))).parent? h = some owner →
      (base.settle h (ix.adoption key (some ownerKey))).Belongs root cs h key kind) :
    (base.settle h (ix.adoption key (some ownerKey))).Shaped root cs := by
  have apart : owner ≠ h := by
    rintro rfl
    have is : (base.settle owner (ix.adoption key (some ownerKey))).kind? owner = some kind := by
      rw [kind?_settle, placed.kind?_of_isOwned isOwned]
    rcases grows.kind_kept ownerIs with kept | ⟨rfl, promoted⟩
    · exact misfit (.inl (Option.some.inj (kept.symm.trans is)))
    · cases promoted.symm.trans is
      exact misfit (.inr ⟨rfl, rfl⟩)
  have self : (base.settle h (ix.adoption key (some ownerKey))).Belongs root cs h key kind := by
    rcases parent?_of_placed shaped sound placed isOwned with ⟨named, is⟩ | ⟨orphan, childless⟩
    · -- it was placed before, and keeps its owner whatever is reported
      have belongs := shaped.place named is
      obtain ⟨p, owned⟩ := belongs.owned isOwned
      exact belongs.grows grows ((grows.parent_kept owned).trans owned.symm)
    · exact new (parent?_settle_of_orphan sound placed ownerNamed apart orphan childless)
  refine ⟨fun {g k K} named is => ?_⟩
  rw [key?_settle] at named
  rw [kind?_settle] at is
  by_cases same : g = h
  · subst same
    cases named.symm.trans placed.key?
    cases is.symm.trans (placed.kind?_of_isOwned isOwned)
    exact self
  · rw [placed.key?_eq_of_ne same] at named
    rw [placed.kind?_eq_of_ne same] at is
    refine (shaped.place named is).grows grows ?_
    rw [parent?_settle_of_ne base g _ same, placed.parent?_eq]

end Owned

end Shaped

end Index

end CodeMetrics
