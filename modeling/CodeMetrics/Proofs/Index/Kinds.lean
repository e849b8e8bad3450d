import CodeMetrics.Proofs.Index.Registration

/-!
# The kinds in an index

Which keys an index has and with which kinds, and how a registration adds to them.  A key that is
known with a kind that does not fit is refused, and stays refused as the index grows; a registration
that is accepted has its key, and its kind unless a type was reported as a placeholder.
-/

namespace CodeMetrics

namespace Index

variable {ix ix' : Index} {key : String} {kind : Kind} {parent : Option String} {h : Handle}

/-- An element of the key has the kind. -/
def Has (ix : Index) (key : String) (kind : Kind) : Prop :=
  ∃ h, ix.key? h = some key ∧ ix.kind? h = some kind

/-- The key is known with a kind that does not fit. -/
def Refuses (ix : Index) (key : String) (kind : Kind) : Prop :=
  ∃ existing, ix.Has key existing ∧ ¬ existing.Fits kind

theorem Has.unique {kind' : Kind} (has : ix.Has key kind) (has' : ix.Has key kind')
    (coherent : ix.Coherent) : kind = kind' := by
  obtain ⟨h, named, is⟩ := has
  obtain ⟨h', named', is'⟩ := has'
  rw [coherent.key?_injective named named', is', Option.some.injEq] at is
  exact is.symm

theorem has_of_find? (coherent : ix.Coherent)
    (is : (ix.find? key).map Element.kind = some kind) : ix.Has key kind := by
  obtain ⟨e, found, rfl⟩ := Option.map_eq_some_iff.mp is
  obtain ⟨known, rfl⟩ := coherent.find?_eq_some_iff.mp found
  exact ⟨e.handle, key?_of_get? known, kind?_of_get? known⟩

theorem Has.find? (has : ix.Has key kind) (coherent : ix.Coherent) :
    (ix.find? key).map Element.kind = some kind := by
  obtain ⟨h, named, is⟩ := has
  obtain ⟨e, found, rfl⟩ := Option.map_eq_some_iff.mp named
  rw [coherent.find?_eq_some_iff.mpr ⟨coherent.handle_eq found ▸ found, rfl⟩]
  exact (kind?_of_get? found).symm.trans is

theorem has_iff (coherent : ix.Coherent) :
    ix.Has key kind ↔ ∃ e, ix.find? key = some e ∧ e.kind = kind := by
  rw [← Option.map_eq_some_iff]
  exact ⟨fun has => has.find? coherent, has_of_find? coherent⟩

/-- A placeholder may become a type, but it fits neither more nor less then. -/
theorem Refuses.grows (refuses : ix.Refuses key kind) (grows : ix.Grows ix') :
    ix'.Refuses key kind := by
  obtain ⟨existing, ⟨h, named, is⟩, misfit⟩ := refuses
  rcases grows.kind_kept is with kept | ⟨rfl, promoted⟩
  · exact ⟨existing, ⟨h, grows.key_kept named, kept⟩, misfit⟩
  · refine ⟨.type, ⟨h, grows.key_kept named, promoted⟩, fun fits => misfit ?_⟩
    rcases fits with rfl | ⟨-, level⟩
    · exact .inr ⟨rfl, rfl⟩
    · exact .inr ⟨rfl, level⟩

theorem Refuses.not_has (refuses : ix.Refuses key kind) (coherent : ix.Coherent) :
    ¬ ix.Has key kind := by
  intro has
  obtain ⟨existing, known, misfit⟩ := refuses
  exact misfit (.inl (known.unique has coherent))

/-- Registrations of a refused key fail, and no others. -/
theorem refuses_iff (coherent : ix.Coherent) (parent : Option String) :
    ix.Refuses key kind ↔ ∃ err, ix.register key kind parent = .error err := by
  constructor
  · rintro ⟨existing, ⟨h, named, is⟩, misfit⟩
    exact ⟨_, (register_eq_error_iff coherent).mpr
      ⟨h, existing, coherent.handle?_iff.mpr named, is, misfit, rfl⟩⟩
  · rintro ⟨err, refused⟩
    obtain ⟨h, existing, listed, is, misfit, -⟩ := (register_eq_error_iff coherent).mp refused
    exact ⟨existing, ⟨h, coherent.handle?_iff.mp listed, is⟩, misfit⟩

/-- What a registration comes to: its key has its kind, unless it is a type and was reported as a
placeholder, and besides at most a placeholder for the owner comes up. -/
structure Registers (ix : Index) (key : String) (kind : Kind) (h : Handle) (ix' : Index) :
    Prop where
  named : ix'.key? h = some key
  is : ix'.kind? h = some kind ∨ ix'.kind? h = some .type ∧ kind = .external
  within : ∀ {k : String} {K : Kind}, ix'.Has k K →
    ix.Has k K ∨ k = key ∧ K = kind ∨ K = .external

namespace Registers

/-- Placing a key is a registration without an owner. -/
theorem of_placed (placed : ix.Placed key kind h ix') : ix.Registers key kind h ix' := by
  refine ⟨placed.key?, placed.kind?, fun {k K} has => ?_⟩
  obtain ⟨g, named, is⟩ := has
  by_cases same : g = h
  · subst same
    rw [placed.key?, Option.some.injEq] at named
    rcases placed.kind?_cases is with before | reported
    · exact .inl ⟨g, named ▸ placed.key?_of_knows (.of_kind? before), before⟩
    · exact .inr (.inl ⟨named.symm, reported⟩)
  · rw [placed.key?_eq_of_ne same] at named
    rw [placed.kind?_eq_of_ne same] at is
    exact .inl ⟨g, named, is⟩

theorem link (registers : ix.Registers key kind h ix') (owner child : Handle) :
    ix.Registers key kind h (ix'.link owner child) := by
  refine ⟨by rw [key?_link, registers.named], by rw [kind?_link]; exact registers.is, ?_⟩
  rintro k K ⟨g, named, is⟩
  rw [key?_link] at named
  rw [kind?_link] at is
  exact registers.within ⟨g, named, is⟩

/-- An element that is new has its own key and kind, and the others have theirs. -/
theorem has_insert {k : String} {K : Kind} (has : (ix.insert key kind).2.Has k K) :
    ix.Has k K ∨ K = kind := by
  obtain ⟨g, named, is⟩ := has
  rw [key?_insert] at named
  rw [kind?_insert] at is
  by_cases new : g = ⟨ix.size⟩
  · rw [if_pos new, Option.some.injEq] at is
    exact .inr is.symm
  · rw [if_neg new] at named is
    exact .inl ⟨g, named, is⟩

/-- The placeholder for the owner is made last. -/
theorem before_owner (registers : ix.Registers key kind h ix') (ownerKey : String) :
    ix.Registers key kind h (ix'.insert ownerKey .external).2 := by
  have old : h ≠ ⟨ix'.size⟩ := (Knows.of_key? registers.named).ne_size
  refine ⟨by rw [key?_insert, if_neg old, registers.named],
    by rw [kind?_insert, if_neg old]; exact registers.is, fun has => ?_⟩
  rcases has_insert has with before | external
  · exact registers.within before
  · exact .inr (.inr external)

/-- The placeholder for the owner is made first. -/
theorem after_owner {ownerKey : String}
    (registers : (ix.insert ownerKey .external).2.Registers key kind h ix') :
    ix.Registers key kind h ix' := by
  refine ⟨registers.named, registers.is, fun has => ?_⟩
  rcases registers.within has with before | new
  · exact (has_insert before).imp_right .inr
  · exact .inr new

end Registers

/-- A registration that succeeds leaves its key with a handle, and the handle with a kind that fits
the reported one.  Apart from a placeholder that may come up, everything else has the kind it had.
-/
theorem register_registers (coherent : ix.Coherent)
    (ok : ix.register key kind parent = .ok (h, ix')) : ix.Registers key kind h ix' := by
  have adopts := ix.adopts key parent
  unfold register at ok
  generalize ix.adoption key parent = adopted at adopts ok
  split at ok
  · next e found =>
      cases merge : ix.mergeKind e kind with
      | error err => rw [merge] at ok; cases ok
      | ok merged =>
          have placed := Registers.of_placed (placed_of_mergeKind coherent found merge)
          rw [merge, Except.map, Except.ok.injEq] at ok
          cases adopted with
          | none => cases ok; exact placed
          | circular _ => cases ok; exact placed
          | known owner => cases ok; exact placed.link owner e.handle
          | placeholder ownerKey => cases ok; exact (placed.before_owner ownerKey).link _ e.handle
  · next missing =>
      have fresh := coherent.find?_eq_none_iff.mp missing
      have placed : ix.Registers key kind ⟨ix.size⟩ (ix.insert key kind).2 :=
        .of_placed (.inserted fresh)
      cases adopts with
      | unreported _ => cases ok; exact placed
      | owned _ _ => cases ok; exact placed
      | circular _ _ _ _ => cases ok; exact placed
      | known _ _ _ => cases ok; exact placed.link _ _
      | @placeholder ownerKey _ other _ _ =>
          cases ok
          -- the placeholder of the owner comes first here, so the key is placed in an index that
          -- has it
          have unlisted : (ix.insert ownerKey .external).2.handle? key = none := by
            rw [handle?_insert, if_neg other, fresh]
          exact ((Registers.of_placed (Placed.inserted unlisted)).link _ _).after_owner

end Index

end CodeMetrics
