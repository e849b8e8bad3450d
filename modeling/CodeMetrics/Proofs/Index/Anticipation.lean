import CodeMetrics.Fact
import CodeMetrics.Proofs.Index.Kinds

/-!
# Owners that are named before they are declared

A declaration may name an owner that is not known yet.  A placeholder is then registered for it, and
the owner's own declaration comes too late: it is accepted if it declares a type, and refused if it
declares anything else.

Declarations are consistent if those of one key agree on its kind.  For such a list, in any order,
the kinds in the index are described here without following the registrations one by one
(`Index.origin`, `Index.present`), and a declaration is refused exactly if its key was anticipated as
an owner and is not type-level (`Declaration.refused_iff`).
-/

namespace CodeMetrics

namespace Index

variable {ix ix' base : Index} {key k : String} {kind K : Kind} {parent : Option String}
  {h : Handle}

/-! ## Kinds after one registration -/

/-- An insertion adds one key with its kind, and nothing else changes for any key. -/
theorem has_insert_iff :
    (ix.insert key kind).2.Has k K ↔ ix.Has k K ∨ k = key ∧ K = kind := by
  constructor
  · rintro ⟨g, named, is⟩
    rw [key?_insert] at named
    rw [kind?_insert] at is
    by_cases new : g = ⟨ix.size⟩
    · rw [if_pos new, Option.some.injEq] at named is
      exact .inr ⟨named.symm, is.symm⟩
    · rw [if_neg new] at named is
      exact .inl ⟨g, named, is⟩
  · rintro (⟨g, named, is⟩ | ⟨rfl, rfl⟩)
    · have old := (Knows.of_key? named).ne_size
      exact ⟨g, by rw [key?_insert, if_neg old, named], by rw [kind?_insert, if_neg old, is]⟩
    · exact ⟨⟨ix.size⟩, by rw [key?_insert, if_pos rfl], by rw [kind?_insert, if_pos rfl]⟩

/-- A link changes no kind. -/
theorem has_link_iff (owner child : Handle) : (ix.link owner child).Has k K ↔ ix.Has k K := by
  simp only [Has, key?_link, kind?_link]

/-- Placing a key leaves the other keys alone: what may be promoted or inserted has this key. -/
theorem Placed.has_iff_of_ne (placed : ix.Placed key kind h base) (other : k ≠ key) :
    base.Has k K ↔ ix.Has k K := by
  constructor
  · rintro ⟨g, named, is⟩
    have apart : g ≠ h := by
      rintro rfl
      rw [placed.key?, Option.some.injEq] at named
      exact other named.symm
    exact ⟨g, placed.key?_eq_of_ne apart ▸ named, placed.kind?_eq_of_ne apart ▸ is⟩
  · rintro ⟨g, named, is⟩
    have apart : g ≠ h := by
      rintro rfl
      rw [placed.key?_of_knows (.of_key? named), Option.some.injEq] at named
      exact other named.symm
    exact ⟨g, (placed.key?_eq_of_ne apart).trans named, (placed.kind?_eq_of_ne apart).trans is⟩

/-- A placeholder is made for a reported owner other than the element, if it is not known. -/
theorem adoption_placeholder (adopted : ix.adoption key parent = .placeholder k) :
    parent = some k ∧ k ≠ key ∧ ix.handle? k = none := by
  have adopts := ix.adopts key parent
  rw [adopted] at adopts
  cases adopts with
  | placeholder reported other unlisted _ => exact ⟨reported, other, unlisted⟩

/-- Besides its own key, a registration brings up the placeholder for the owner and nothing else.
All other keys keep the kinds they had, or stay unknown. -/
theorem has_register_iff_of_ne (coherent : ix.Coherent)
    (ok : ix.register key kind parent = .ok (h, ix')) (other : k ≠ key) :
    ix'.Has k K ↔ ix.Has k K ∨ ix.adoption key parent = .placeholder k ∧ K = .external := by
  by_cases anticipates : ∃ ownerKey, ix.adoption key parent = .placeholder ownerKey
  · -- a placeholder is made for the owner, before or after the key itself is placed
    obtain ⟨ownerKey, adopted⟩ := anticipates
    rw [adopted, Adoption.placeholder.injEq, eq_comm (a := ownerKey)]
    unfold register at ok
    rw [adopted] at ok
    split at ok
    · next e found =>
        cases merge : ix.mergeKind e kind with
        | error err => rw [merge] at ok; cases ok
        | ok merged =>
            rw [merge] at ok
            cases ok
            refine (has_link_iff _ _).trans ?_
            show (merged.insert ownerKey .external).2.Has k K ↔ _
            rw [has_insert_iff, (placed_of_mergeKind coherent found merge).has_iff_of_ne other]
    · next missing =>
        cases ok
        refine (has_link_iff _ _).trans ?_
        show ((ix.insert ownerKey .external).2.insert key kind).2.Has k K ↔ _
        rw [has_insert_iff, has_insert_iff]
        simp only [other, false_and, or_false]
  · have known (ownerKey : String) : ix.adoption key parent ≠ .placeholder ownerKey :=
      fun adopted => anticipates ⟨ownerKey, adopted⟩
    obtain ⟨base, placed, rfl⟩ := register_placed coherent known ok
    simp only [known, false_and, or_false]
    rw [← placed.has_iff_of_ne other]
    simp only [Has, key?_settle, kind?_settle]

/-! ## Declarations one after the other -/

/-- Registers a declaration; if it is refused, the index stays as it is. -/
def accept (ix : Index) (d : Declaration) : Index :=
  match ix.register d.key d.kind d.parent with
  | .ok (_, ix') => ix'
  | .error _ => ix

/-- The index after some declarations. -/
def declaring (ds : List Declaration) : Index := ds.foldl accept {}

/-- A declaration that comes last is accepted by the index that the ones before have led to. -/
theorem declaring_concat (ds : List Declaration) (d : Declaration) :
    declaring (ds ++ [d]) = (declaring ds).accept d := by
  rw [declaring, List.foldl_append]
  rfl

/-- Accepting a declaration is a chain of elementary changes; if it is refused, the chain is empty.
-/
theorem accept_moves (sound : ix.Sound) (d : Declaration) : ix.Moves (ix.accept d) := by
  unfold accept
  split
  · next ok => exact register_moves sound ok
  · exact .refl

/-- Accepting declarations one after the other is a chain of elementary changes. -/
theorem foldl_accept_moves (sound : ix.Sound) (ds : List Declaration) :
    ix.Moves (ds.foldl accept ix) := by
  induction ds generalizing ix with
  | nil => exact .refl
  | cons d rest ih =>
      have first := accept_moves sound d
      exact first.trans (ih (sound.moves first))

/-- After any declarations the index is sound, however they contradict each other. -/
theorem declaring_sound (ds : List Declaration) : (declaring ds).Sound :=
  Sound.empty.moves (foldl_accept_moves .empty ds)

/-- More declarations make the index grow. -/
theorem declaring_grows (ds rest : List Declaration) :
    (declaring ds).Grows (declaring (ds ++ rest)) := by
  have later : declaring (ds ++ rest) = rest.foldl accept (declaring ds) := List.foldl_append
  rw [later]
  exact .of_moves (foldl_accept_moves (declaring_sound ds) rest)

end Index

namespace Declaration

open Index

variable {ds before after : List Declaration} {d : Declaration} {key k : String}
  {kind K existing requested : Kind}

/-- The declarations of one key agree on its kind. -/
def Consistent (ds : List Declaration) : Prop :=
  ∀ d ∈ ds, ∀ d' ∈ ds, d.key = d'.key → d.kind = d'.kind

instance (ds : List Declaration) : Decidable (Consistent ds) :=
  inferInstanceAs (Decidable (∀ d ∈ ds, ∀ d' ∈ ds, d.key = d'.key → d.kind = d'.kind))

/-- One of the declarations is accepted and names the key as an owner before it is known. -/
def Anticipated (ds : List Declaration) (key : String) : Prop :=
  ∃ before d after, ds = before ++ d :: after ∧
    ¬ (declaring before).Refuses d.key d.kind ∧
    (declaring before).adoption d.key d.parent = .placeholder key

/-- One of the declarations is refused with a conflict of kinds. -/
def Refused (ds : List Declaration) (key : String) (existing requested : Kind) : Prop :=
  ∃ before d after, ds = before ++ d :: after ∧
    (declaring before).register d.key d.kind d.parent =
      .error (.kindConflict key existing requested)

/-- What is consistent is so from the beginning on. -/
theorem Consistent.of_append (consistent : Consistent (before ++ after)) : Consistent before :=
  fun d listed d' listed' =>
    consistent d (List.mem_append_left _ listed) d' (List.mem_append_left _ listed')

/-- What is consistent is so up to each of its declarations. -/
theorem Consistent.upTo (consistent : Consistent (before ++ d :: after)) :
    Consistent (before ++ [d]) := by
  rw [← List.singleton_append, ← List.append_assoc] at consistent
  exact consistent.of_append

/-- A key that was anticipated once stays so. -/
theorem Anticipated.append (anticipated : Anticipated before k) (after : List Declaration) :
    Anticipated (before ++ after) k := by
  obtain ⟨early, d, late, rfl, accepted, adopted⟩ := anticipated
  exact ⟨early, d, late ++ after, by rw [List.append_assoc]; rfl, accepted, adopted⟩

/-- An accepted declaration anticipates the key of its owner, if a placeholder has to be made for
it. -/
theorem Anticipated.of_last (accepted : ¬ (declaring ds).Refuses d.key d.kind)
    (adopted : (declaring ds).adoption d.key d.parent = .placeholder k) :
    Anticipated (ds ++ [d]) k :=
  ⟨ds, d, [], rfl, accepted, adopted⟩

/-- One more declaration is refused or it is not.  What was refused before stays refused. -/
theorem refused_concat_iff :
    Refused (ds ++ [d]) key existing requested ↔ Refused ds key existing requested ∨
      (declaring ds).register d.key d.kind d.parent =
        .error (.kindConflict key existing requested) := by
  constructor
  · rintro ⟨before, d', after, split, refused⟩
    rcases List.eq_nil_or_concat after with rfl | ⟨rest, last, rfl⟩
    · obtain ⟨rfl, single⟩ := List.append_inj' split rfl
      cases single
      exact .inr refused
    · rw [List.concat_eq_append, ← List.cons_append, ← List.append_assoc] at split
      obtain ⟨rfl, -⟩ := List.append_inj' split rfl
      exact .inl ⟨before, d', rest, rfl, refused⟩
  · rintro (⟨before, d', after, rfl, refused⟩ | refused)
    · exact ⟨before, d', after ++ [d], by rw [List.append_assoc]; rfl, refused⟩
    · exact ⟨ds, d, [], rfl, refused⟩

/-- An anticipated key is a placeholder at first, and may become a type.  It never becomes anything
else. -/
theorem Anticipated.has (anticipated : Anticipated ds k) :
    ∃ K, (declaring ds).Has k K ∧ K.isTypeLevel = true := by
  obtain ⟨before, d, after, rfl, accepted, adopted⟩ := anticipated
  have sound := declaring_sound before
  obtain ⟨-, other, -⟩ := adoption_placeholder adopted
  have placeholder : (declaring (before ++ [d])).Has k .external := by
    rw [declaring_concat, accept]
    rcases result : (declaring before).register d.key d.kind d.parent with err | ⟨h, ix'⟩
    · exact absurd ((refuses_iff sound.toCoherent d.parent).mpr ⟨err, result⟩) accepted
    · exact (has_register_iff_of_ne sound.toCoherent result other).mpr (.inr ⟨adopted, rfl⟩)
  obtain ⟨h, named, is⟩ := placeholder
  have grows := declaring_grows (before ++ [d]) after
  rw [List.append_assoc, List.singleton_append] at grows
  rcases grows.kind_kept is with kept | ⟨-, promoted⟩
  · exact ⟨.external, ⟨h, grows.key_kept named, kept⟩, rfl⟩
  · exact ⟨.type, ⟨h, grows.key_kept named, promoted⟩, rfl⟩

/-- The placeholder stands in the way of every kind but a type. -/
theorem Anticipated.refuses (anticipated : Anticipated ds d.key)
    (level : d.kind.isTypeLevel = false) : (declaring ds).Refuses d.key d.kind := by
  obtain ⟨K, has, level'⟩ := anticipated.has
  refine ⟨K, has, ?_⟩
  rintro (rfl | ⟨-, level''⟩)
  · rw [level] at level'
    cases level'
  · rw [level] at level''
    cases level''

/-! ## The kinds after consistent declarations -/

/-- The kinds in an index agree with consistent declarations, placeholders apart. -/
structure Settled (ds : List Declaration) (ix : Index) : Prop where
  /-- Every kind was declared, or it is that of a placeholder for an owner. -/
  origin : ∀ {k : String} {K : Kind}, ix.Has k K →
    (∃ d ∈ ds, d.key = k ∧ d.kind = K) ∨ K = .external ∧ Anticipated ds k
  /-- Every declared key has its kind, unless it was anticipated and is no type. -/
  present : ∀ {d : Declaration}, d ∈ ds → ix.Has d.key d.kind ∨
    ix.Has d.key .external ∧ Anticipated ds d.key ∧ d.kind.isTypeLevel = false

namespace Settled

variable {ix ix' : Index} {h : Handle}

/-- A declaration that is refused was anticipated, and is no type. -/
theorem refuses (settled : Settled ds ix) (consistent : Consistent (ds ++ [d]))
    (has : ix.Has d.key existing) (misfit : ¬ existing.Fits d.kind) :
    existing = .external ∧ Anticipated ds d.key ∧ d.kind.isTypeLevel = false := by
  rcases settled.origin has with ⟨d', listed, same, rfl⟩ | ⟨rfl, anticipated⟩
  · have equal := consistent d' (List.mem_append_left _ listed) d (by simp) same
    exact absurd (.inl equal) misfit
  · refine ⟨rfl, anticipated, ?_⟩
    rw [← Bool.not_eq_true]
    exact fun level => misfit (.inr ⟨rfl, level⟩)

/-- A declaration that is refused changes nothing, and the kinds stay settled: its key was
anticipated, and only a placeholder can stand in its way. -/
theorem refused (settled : Settled ds ix) (consistent : Consistent (ds ++ [d]))
    (refuses : ix.Refuses d.key d.kind) : Settled (ds ++ [d]) ix where
  origin has := by
    rcases settled.origin has with ⟨d', listed, facts⟩ | ⟨external, anticipated⟩
    · exact .inl ⟨d', List.mem_append_left _ listed, facts⟩
    · exact .inr ⟨external, anticipated.append [d]⟩
  present {d'} listed := by
    rcases List.mem_append.mp listed with old | new
    · refine (settled.present old).imp_right fun late => ?_
      exact ⟨late.1, late.2.1.append [d], late.2.2⟩
    · obtain rfl := List.mem_singleton.mp new
      obtain ⟨existing, has, misfit⟩ := refuses
      obtain ⟨rfl, anticipated, level⟩ := settled.refuses consistent has misfit
      exact .inr ⟨has, anticipated.append _, level⟩

/-- A declaration that is accepted has its kind.  The exception would be a placeholder that is
declared for a known type, and consistent declarations exclude it. -/
theorem has_of_accepted (settled : Settled ds ix) (coherent : ix.Coherent)
    (consistent : Consistent (ds ++ [d]))
    (ok : ix.register d.key d.kind d.parent = .ok (h, ix')) : ix'.Has d.key d.kind := by
  have registers := register_registers coherent ok
  rcases registers.is with is | ⟨is, external⟩
  · exact ⟨h, registers.named, is⟩
  · -- a type that is declared as a placeholder was declared as a type before
    rcases registers.within ⟨h, registers.named, is⟩ with before | ⟨-, type⟩ | type
    · rcases settled.origin before with ⟨d', listed, same, type⟩ | ⟨type, -⟩
      · have equal := consistent d' (List.mem_append_left _ listed) d (by simp) same
        rw [type, external] at equal
        cases equal
      · cases type
    · rw [external] at type
      cases type
    · cases type

/-- An accepted declaration keeps the kinds settled: they are those of the declarations, but for
keys that were anticipated. -/
theorem accepted (settled : Settled ds (declaring ds)) (consistent : Consistent (ds ++ [d]))
    (ok : (declaring ds).register d.key d.kind d.parent = .ok (h, ix')) :
    Settled (ds ++ [d]) ix' := by
  have sound := declaring_sound ds
  have has := settled.has_of_accepted sound.toCoherent consistent ok
  have others {k : String} {K : Kind} (other : k ≠ d.key) :=
    has_register_iff_of_ne (K := K) sound.toCoherent ok other
  have welcome : ¬ (declaring ds).Refuses d.key d.kind := by
    rw [refuses_iff sound.toCoherent d.parent, ok]
    rintro ⟨err, ⟨⟩⟩
  have coherent' := (sound.moves (register_moves sound ok)).toCoherent
  refine ⟨fun {k K} has' => ?_, fun {d'} listed => ?_⟩
  · by_cases same : k = d.key
    · subst same
      exact .inl ⟨d, by simp, rfl, has.unique has' coherent'⟩
    · rcases (others same).mp has' with old | ⟨adopted, external⟩
      · rcases settled.origin old with ⟨d', listed, facts⟩ | ⟨external, anticipated⟩
        · exact .inl ⟨d', List.mem_append_left _ listed, facts⟩
        · exact .inr ⟨external, anticipated.append [d]⟩
      · exact .inr ⟨external, .of_last welcome adopted⟩
  · by_cases same : d'.key = d.key
    · rw [same, consistent d' listed d (by simp) same]
      exact .inl has
    · rcases List.mem_append.mp listed with old | new
      · rcases settled.present old with kept | ⟨external, anticipated, level⟩
        · exact .inl ((others same).mpr (.inl kept))
        · exact .inr ⟨(others same).mpr (.inl external), anticipated.append [d], level⟩
      · exact absurd (congrArg key (List.mem_singleton.mp new)) same

end Settled

/-- **The kinds after consistent declarations**, whatever their order.  The induction adds one
declaration at the end, which is refused or accepted. -/
theorem Consistent.settled (consistent : Consistent ds) : Settled ds (declaring ds) := by
  induction ds using List.reverseRecOn with
  | nil =>
      refine ⟨fun has => ?_, fun listed => absurd listed List.not_mem_nil⟩
      obtain ⟨h, named, -⟩ := has
      exact absurd (Knows.of_key? named) (Nat.not_lt_zero _)
  | append_singleton ds d ih =>
      have settled := ih consistent.of_append
      rw [declaring_concat, accept]
      rcases result : (declaring ds).register d.key d.kind d.parent with err | ⟨h, ix'⟩
      · refine settled.refused consistent ?_
        exact (refuses_iff (declaring_sound ds).toCoherent d.parent).mpr ⟨err, result⟩
      · exact settled.accepted consistent result

/-- A declared key has its declared kind, if it is a type or placeholder or was not anticipated. -/
theorem Consistent.has_kind (consistent : Consistent ds) (listed : d ∈ ds)
    (timely : d.kind.isTypeLevel = true ∨ ¬ Anticipated ds d.key) :
    (declaring ds).Has d.key d.kind := by
  rcases consistent.settled.present listed with has | ⟨-, anticipated, level⟩
  · exact has
  · rcases timely with level' | unanticipated
    · rw [level] at level'
      cases level'
    · exact absurd anticipated unanticipated

/-- A key that was anticipated, and turns out to be neither type nor placeholder, stays a
placeholder.  Its declaration is refused. -/
theorem Consistent.has_external (consistent : Consistent ds) (listed : d ∈ ds)
    (level : d.kind.isTypeLevel = false) (anticipated : Anticipated ds d.key) :
    (declaring ds).Has d.key .external := by
  rcases consistent.settled.present listed with has | ⟨has, -⟩
  · obtain ⟨K, has', level'⟩ := anticipated.has
    rw [has.unique has' (declaring_sound ds).toCoherent, level'] at level
    cases level
  · exact has

/-- The key of a declaration is known from then on. -/
theorem Consistent.handle?_ne_none (consistent : Consistent ds) (listed : d ∈ ds) :
    (declaring ds).handle? d.key ≠ none := by
  have known : ∃ K, (declaring ds).Has d.key K := by
    rcases consistent.settled.present listed with has | ⟨has, -⟩
    · exact ⟨_, has⟩
    · exact ⟨_, has⟩
  obtain ⟨K, h, named, -⟩ := known
  rw [(declaring_sound ds).handle?_iff.mpr named]
  exact Option.some_ne_none h

/-- A declaration whose key is unknown up to some point comes after it. -/
theorem Consistent.mem_after (consistent : Consistent (before ++ after)) (listed : d ∈ before ++ after)
    (unlisted : (declaring before).handle? d.key = none) : d ∈ after := by
  refine (List.mem_append.mp listed).resolve_left fun early => ?_
  exact consistent.of_append.handle?_ne_none early unlisted

/-- **What consistent declarations are refused.**  The key was named as an owner before its own
declaration and is no type, so that the placeholder stands in its way. -/
theorem Consistent.refused_iff (consistent : Consistent ds) :
    Refused ds key existing requested ↔
      existing = .external ∧ requested.isTypeLevel = false ∧ Anticipated ds key ∧
        ∃ d ∈ ds, d.key = key ∧ d.kind = requested := by
  constructor
  · rintro ⟨before, d, after, rfl, refused⟩
    obtain ⟨h, _, listed, is, misfit, conflict⟩ :=
      (register_eq_error_iff (declaring_sound before).toCoherent).mp refused
    cases conflict
    have named := (declaring_sound before).handle?_iff.mp listed
    obtain ⟨external, anticipated, level⟩ :=
      consistent.of_append.settled.refuses consistent.upTo ⟨h, named, is⟩ misfit
    exact ⟨external, level, anticipated.append _, d, by simp, rfl, rfl⟩
  · rintro ⟨rfl, level, ⟨before, a, after, rfl, accepted, adopted⟩, d, listed, rfl, rfl⟩
    obtain ⟨-, other, unlisted⟩ := adoption_placeholder adopted
    -- the declaration comes after the one that anticipates its key
    obtain ⟨between, late, rfl⟩ : ∃ between late, after = between ++ d :: late := by
      rcases List.mem_cons.mp (consistent.mem_after listed unlisted) with rfl | later
      · exact absurd rfl other
      · exact List.append_of_mem later
    have anticipated : Anticipated (before ++ a :: between) d.key :=
      ⟨before, a, between, rfl, accepted, adopted⟩
    have whole : before ++ a :: (between ++ d :: late) = (before ++ a :: between) ++ d :: late := by
      simp
    have coherent := (declaring_sound (before ++ a :: between)).toCoherent
    obtain ⟨err, refused⟩ := (refuses_iff coherent d.parent).mp (anticipated.refuses level)
    obtain ⟨h, existing, listed, is, misfit, rfl⟩ := (register_eq_error_iff coherent).mp refused
    rw [whole] at consistent
    obtain ⟨rfl, -⟩ := consistent.of_append.settled.refuses consistent.upTo
      ⟨h, coherent.handle?_iff.mp listed, is⟩ misfit
    exact ⟨before ++ a :: between, d, late, whole, refused⟩

/-- Owners come first: whoever names an owner that is no type follows the owner's declaration. -/
def Punctual (ds : List Declaration) : Prop :=
  ∀ before d after, ds = before ++ d :: after → ∀ owner ∈ ds, d.parent = some owner.key →
    owner.key ≠ d.key → owner.kind.isTypeLevel = false → ∃ d' ∈ before, d'.key = owner.key

/-- Where owners come first, nothing but types is anticipated. -/
theorem Consistent.not_anticipated (consistent : Consistent (ds ++ after))
    (punctual : Punctual (ds ++ after)) (listed : d ∈ ds ++ after)
    (level : d.kind.isTypeLevel = false) : ¬ Anticipated ds d.key := by
  rintro ⟨early, a, late, rfl, -, adopted⟩
  obtain ⟨named, other, unlisted⟩ := adoption_placeholder adopted
  have whole : early ++ a :: late ++ after = early ++ a :: (late ++ after) := by simp
  obtain ⟨d', earlier, same⟩ := punctual early a (late ++ after) whole d listed named other level
  rw [← same] at unlisted
  exact consistent.of_append.of_append.handle?_ne_none earlier unlisted

end Declaration

end CodeMetrics
