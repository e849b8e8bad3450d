import CodeMetrics.Proofs.Index.Records

/-!
# Indices with the same declarations

Two indices that record the same declarations have the same keys and, key by key, the same kinds:
the order in which placeholders are made and become types leaves no trace.

Owners are less simple, since an index leaves out an owner that would close a cycle, and which one
that is depends on the order.  Declarations are `Layered` if the owner of a key is given by the kind
and the key, and stands in a lower layer.  Then no cycle can come up, and every element has the
owner that it should have.
-/

namespace CodeMetrics

/-- The declarations name the expected owners, and owners stand in lower layers. -/
structure Layered (expected : Kind → String → Option String) (rank : Kind → Nat)
    (ds : List Declaration) : Prop where
  parents : ∀ {d : Declaration}, d ∈ ds → d.parent = expected d.kind d.key
  placeholders : ∀ key : String, expected .external key = none
  owners : ∀ {d : Declaration} {ownerKey : String}, d ∈ ds → d.parent = some ownerKey →
    ∃ d' ∈ ds, d'.key = ownerKey ∧ d'.kind ≠ .external ∧ rank d'.kind < rank d.kind

namespace Index.Records

variable {ix ix' : Index} {ds ds' : List Declaration} {h h' owner : Handle} {key : String}
  {kind ownerKind : Kind}

theorem congr (records : ix.Records ds) (same : ∀ d, d ∈ ds' ↔ d ∈ ds) : ix.Records ds' where
  reported named is := by
    obtain ⟨d, listed, facts⟩ := records.reported named is
    exact ⟨d, (same d).mpr listed, facts⟩
  present listed := records.present ((same _).mp listed)
  owner_reported owned := by
    obtain ⟨d, listed, facts⟩ := records.owner_reported owned
    exact ⟨d, (same d).mpr listed, facts⟩
  owner_present listed := records.owner_present ((same _).mp listed)

/-- The known keys are the declared ones. -/
theorem known_iff (records : ix.Records ds) :
    (∃ h, ix.key? h = some key) ↔ ∃ d ∈ ds, d.key = key := by
  constructor
  · rintro ⟨h, named⟩
    obtain ⟨kind, is⟩ := knows_iff_kind?.mp (.of_key? named)
    obtain ⟨d, listed, same, -⟩ := records.reported named is
    exact ⟨d, listed, same⟩
  · rintro ⟨d, listed, rfl⟩
    obtain ⟨h, -, named, -⟩ := records.present listed
    exact ⟨h, named⟩

/-- The kind of a key is given by its declarations.  So two indexes that record the same
declarations agree on it, though the key may have different handles in them. -/
theorem kind?_eq (records : ix.Records ds) (records' : ix'.Records ds) (coherent : ix.Coherent)
    (coherent' : ix'.Coherent) (named : ix.key? h = some key) (named' : ix'.key? h' = some key) :
    ix'.kind? h' = ix.kind? h := by
  obtain ⟨kind, is⟩ := knows_iff_kind?.mp (.of_key? named)
  obtain ⟨kind', is'⟩ := knows_iff_kind?.mp (.of_key? named')
  obtain ⟨d, listed, rfl, rfl⟩ := records.reported named is
  obtain ⟨d', listed', same, rfl⟩ := records'.reported named' is'
  rw [← same] at named
  have fits' := records'.fits coherent' listed named' is'
  have fits := records.fits coherent listed' named is
  rw [is, is', Option.some.injEq]
  -- a type here and a placeholder there would have to be a placeholder here as well
  rcases fits with equal | ⟨type, external⟩
  · exact equal.symm
  · rcases fits' with equal | ⟨type', external'⟩
    · exact equal
    · rw [type] at external'
      cases external'

/-! ## Owners -/

variable {expected : Kind → String → Option String} {rank : Kind → Nat}

/-- A declared key that is no placeholder has the kind that was declared. -/
theorem kind_eq (records : ix.Records ds) (coherent : ix.Coherent) {d : Declaration}
    (listed : d ∈ ds) (definite : d.kind ≠ .external) (named : ix.key? h = some d.key)
    (is : ix.kind? h = some kind) : kind = d.kind := by
  rcases records.fits coherent listed named is with equal | ⟨-, external⟩
  · exact equal
  · exact absurd external definite

theorem definite_of_parent (layered : Layered expected rank ds) {d : Declaration}
    (listed : d ∈ ds) {ownerKey : String} (parent : d.parent = some ownerKey) :
    d.kind ≠ .external := by
  intro external
  have none := layered.parents listed
  rw [external, layered.placeholders, parent] at none
  cases none

/-- An owner stands in a lower layer. -/
theorem rank_lt (records : ix.Records ds) (coherent : ix.Coherent)
    (layered : Layered expected rank ds) (owned : ix.parent? h = some owner)
    (is : ix.kind? h = some kind) (ownerIs : ix.kind? owner = some ownerKind) :
    rank ownerKind < rank kind := by
  obtain ⟨d, listed, named, ownerKey, parent, ownerNamed⟩ := records.owner_reported owned
  obtain ⟨d', listed', same, definite, lower⟩ := layered.owners listed parent
  rw [← same] at ownerNamed
  rw [records.kind_eq coherent listed (definite_of_parent layered listed parent) named is,
    records.kind_eq coherent listed' definite ownerNamed ownerIs]
  exact lower

/-- Whatever lies below an element has a kind of no lower rank.  So an owner of a lower rank cannot
lie below what it is to own. -/
theorem rank_le_of_within (records : ix.Records ds) (sound : ix.Sound)
    (layered : Layered expected rank ds) (within : ix.Within owner h)
    (is : ix.kind? h = some kind) (ownerIs : ix.kind? owner = some ownerKind) :
    rank kind ≤ rank ownerKind := by
  -- along the chain from `h` down to `owner` the layers only rise
  induction within generalizing ownerKind with
  | refl =>
      rw [is, Option.some.injEq] at ownerIs
      rw [ownerIs]
  | tail _ owned ih =>
      obtain ⟨between, betweenIs⟩ := knows_iff_kind?.mp (sound.owner_known owned)
      have lower := records.rank_lt sound.toCoherent layered owned ownerIs betweenIs
      exact (ih betweenIs).trans lower.le

/-- **Every element has the expected owner.**  Owners stand in lower layers than what they own, so
no link is refused for being circular, and each element gets the owner that is declared for it. -/
theorem map_key_parent? (records : ix.Records ds) (sound : ix.Sound)
    (layered : Layered expected rank ds) (named : ix.key? h = some key)
    (is : ix.kind? h = some kind) : (ix.parent? h).bind ix.key? = expected kind key := by
  obtain ⟨d, listed, rfl, rfl⟩ := records.reported named is
  rw [← layered.parents listed]
  cases owned : ix.parent? h with
  | some owner =>
      -- the owner was reported by a declaration of the key, and these all expect the same one
      obtain ⟨d', listed', named', ownerKey, parent, ownerNamed⟩ := records.owner_reported owned
      have kind := records.kind_eq sound.toCoherent listed'
        (definite_of_parent layered listed' parent) named' is
      rw [named, Option.some.injEq] at named'
      rw [Option.bind_some, ownerNamed, layered.parents listed, kind, named',
        ← layered.parents listed', parent]
  | none =>
      rw [Option.bind_none]
      cases parent : d.parent with
      | none => rfl
      | some ownerKey =>
          -- a reported owner is left out only if it stands in a layer above, where none stands
          exfalso
          obtain ⟨d', listed', same, definite, lower⟩ := layered.owners listed parent
          have ranked {g : Handle} {k : Kind} (ownerNamed : ix.key? g = some ownerKey)
              (ownerIs : ix.kind? g = some k) : rank k < rank d.kind := by
            rw [← same] at ownerNamed
            rw [records.kind_eq sound.toCoherent listed' definite ownerNamed ownerIs]
            exact lower
          have other : ownerKey ≠ d.key := by
            rintro rfl
            exact Nat.lt_irrefl _ (ranked named is)
          obtain ⟨g, owner, named', ownerNamed, settled⟩ :=
            records.owner_present listed parent other
          obtain rfl := sound.key?_injective named' named
          rcases settled with adopted | within
          · exact adopted owned
          · obtain ⟨k, ownerIs⟩ := knows_iff_kind?.mp (.of_key? ownerNamed)
            have higher := records.rank_le_of_within sound layered within is ownerIs
            exact Nat.lt_irrefl _ ((ranked ownerNamed ownerIs).trans_le higher)

end Index.Records

end CodeMetrics
