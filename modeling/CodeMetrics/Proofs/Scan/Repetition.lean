import CodeMetrics.Proofs.Index.Anticipation
import CodeMetrics.Proofs.Index.History
import CodeMetrics.Proofs.Index.Records
import CodeMetrics.Proofs.Scan.Sources

/-!
# Repeated registrations

A registration is absorbed forever.  It leaves behind an element of its key with a kind that fits
and an owner that is dealt with (`Index.Absorbs`), or it is refused.  Both last while the index
grows, whatever promotes, adopts or measures the element meanwhile.  So the same registration, made
once more at any later time, changes nothing and has the same answer.

Source facts are registrations, so that applying them a second time changes nothing either.
-/

namespace CodeMetrics

namespace Index

variable {ix ix' later : Index} {key : String} {kind : Kind} {parent : Option String} {h : Handle}

/-! ## What a registration leaves behind -/

/-- Nothing is left to do for a registration: the element is there with a kind that needs no change,
and as for the reported owner, there is none, or the element has an owner, or it owns that one. -/
structure Absorbs (ix : Index) (key : String) (kind : Kind) (parent : Option String)
    (h : Handle) : Prop where
  named : ix.key? h = some key
  is : ix.kind? h = some kind ∨ ix.kind? h = some .type ∧ kind = .external
  settled : parent.filter (· != key) = none ∨ ix.parent? h ≠ none ∨
    ∃ ownerKey owner, parent = some ownerKey ∧ ix.key? owner = some ownerKey ∧ ix.Within owner h

/-- Owners are never replaced and a type is never demoted, so what is absorbed once is absorbed
later. -/
theorem Absorbs.grows (absorbs : ix.Absorbs key kind parent h) (grows : ix.Grows later) :
    later.Absorbs key kind parent h where
  named := grows.key_kept absorbs.named
  is := by
    rcases absorbs.is with is | ⟨is, reported⟩
    · rcases grows.kind_kept is with kept | ⟨reported, promoted⟩
      · exact .inl kept
      · exact .inr ⟨promoted, reported⟩
    · rcases grows.kind_kept is with kept | ⟨impossible, -⟩
      · exact .inr ⟨kept, reported⟩
      · cases impossible
  settled := by
    rcases absorbs.settled with unreported | owned | ⟨ownerKey, owner, reported, named, within⟩
    · exact .inl unreported
    · obtain ⟨owner, owned⟩ := Option.ne_none_iff_exists'.mp owned
      exact .inr (.inl (by rw [grows.parent_kept owned]; exact Option.some_ne_none owner))
    · exact .inr (.inr ⟨ownerKey, owner, reported, grows.key_kept named, grows.within within⟩)

/-- An owner that is dealt with is not adopted: none is reported or needed, or it would close a
cycle. -/
theorem Absorbs.adoption (absorbs : ix.Absorbs key kind parent h) (sound : ix.Sound) :
    ix.adoption key parent = .none ∨ ∃ ownerKey, ix.adoption key parent = .circular ownerKey := by
  obtain ⟨e, found, rfl⟩ := Option.map_eq_some_iff.mp absorbs.named
  have here := sound.handle_eq found
  subst here
  have listed := sound.find?_eq_some_iff.mpr ⟨found, rfl⟩
  rcases absorbs.settled with unreported | settled
  · rw [Index.adoption, unreported]
    exact .inl rfl
  rw [parent?_of_get? found] at settled
  have adopts := ix.adopts e.key parent
  generalize ix.adoption e.key parent = adopted at adopts ⊢
  cases adopts with
  | unreported _ => exact .inl rfl
  | owned _ _ => exact .inl rfl
  | circular _ _ _ _ => exact .inr ⟨_, rfl⟩
  | @known _ owner reported known allowed =>
      -- the element has an owner, or the reported one lies below it: nothing can be adopted
      obtain ⟨orphan, apart⟩ := allowed e listed
      rcases settled with owned | ⟨_, owner', reported', named, within⟩
      · exact absurd orphan owned
      · rw [reported, Option.some.injEq] at reported'
        have same : owner' = owner :=
          sound.key?_injective (reported' ▸ named) (sound.handle?_iff.mp known)
        rw [sound.isWithin_iff (.of_key? (sound.handle?_iff.mp known))] at apart
        exact absurd (same ▸ within) apart
  | placeholder reported _ unlisted orphan =>
      rcases settled with owned | ⟨_, _, reported', named, -⟩
      · exact absurd (orphan e listed) owned
      · rw [reported, Option.some.injEq] at reported'
        rw [sound.handle?_iff.mpr (reported' ▸ named)] at unlisted
        cases unlisted

/-- A registration that is absorbed finds its element and changes nothing, not even the order of
children. -/
theorem Absorbs.register_eq (absorbs : ix.Absorbs key kind parent h) (sound : ix.Sound) :
    ix.register key kind parent = .ok (h, ix) := by
  have adoption := absorbs.adoption sound
  obtain ⟨e, found, rfl⟩ := Option.map_eq_some_iff.mp absorbs.named
  have here := sound.handle_eq found
  subst here
  have fits := absorbs.is
  rw [kind?_of_get? found, Option.some.injEq, Option.some.injEq] at fits
  have merged : ix.mergeKind e kind = .ok ix := by rw [mergeKind_eq, if_pos fits]
  rw [register, sound.find?_eq_some_iff.mpr ⟨found, rfl⟩]
  simp only [merged, Except.map]
  rcases adoption with none | ⟨ownerKey, circular⟩
  · rw [none]
  · rw [circular]

/-- Unless nothing is adopted, linking the element to its owner is the last step of a registration.
-/
theorem register_linked (ok : ix.register key kind parent = .ok (h, ix')) :
    ix.adoption key parent = .none ∨ (∃ ownerKey, ix.adoption key parent = .circular ownerKey) ∨
      ∃ (base : Index) (owner : Handle), ix' = base.link owner h := by
  unfold register at ok
  generalize ix.adoption key parent = adopted at ok ⊢
  cases adopted with
  | none => exact .inl rfl
  | circular ownerKey => exact .inr (.inl ⟨ownerKey, rfl⟩)
  | known owner =>
      refine .inr (.inr ?_)
      split at ok
      · next e _ =>
          cases merge : ix.mergeKind e kind with
          | error err => rw [merge] at ok; cases ok
          | ok merged => rw [merge] at ok; cases ok; exact ⟨_, _, rfl⟩
      · cases ok
        exact ⟨_, _, rfl⟩
  | placeholder ownerKey =>
      refine .inr (.inr ?_)
      split at ok
      · next e _ =>
          cases merge : ix.mergeKind e kind with
          | error err => rw [merge] at ok; cases ok
          | ok merged => rw [merge] at ok; cases ok; exact ⟨_, _, rfl⟩
      · cases ok
        exact ⟨_, _, rfl⟩

/-- What is registered is absorbed from then on.  Its key is known with a kind that fits, and its
owner is settled in one way or the other. -/
theorem register_absorbs (sound : ix.Sound) (ok : ix.register key kind parent = .ok (h, ix')) :
    ix'.Absorbs key kind parent h := by
  have registers := register_registers sound.toCoherent ok
  have grows : ix.Grows ix' := .of_moves (register_moves sound ok)
  have sound' := sound.moves (register_moves sound ok)
  refine ⟨registers.named, registers.is, ?_⟩
  -- the element that was found is the one that is registered
  have same {e : Element} (found : ix.find? key = some e) : ix.get? h = some e := by
    obtain ⟨at_handle, named⟩ := sound.find?_eq_some_iff.mp found
    have kept := grows.key_kept (key?_of_get? at_handle)
    rw [named] at kept
    rwa [sound'.key?_injective registers.named kept]
  have adopts := ix.adopts key parent
  rcases register_linked ok with none | ⟨k, circular⟩ | ⟨base, owner, linked⟩
  · rw [none] at adopts
    cases adopts with
    | unreported none_left => exact .inl none_left
    | owned found owned =>
        obtain ⟨owner, owned⟩ := Option.ne_none_iff_exists'.mp owned
        have kept := grows.parent_kept ((parent?_of_get? (same found)).trans owned)
        exact .inr (.inl (by rw [kept]; exact Option.some_ne_none owner))
  · rw [circular] at adopts
    cases adopts with
    | @circular _ owner e reported listed found within =>
        have named := sound.handle?_iff.mp listed
        rw [sound.isWithin_iff (.of_key? named), sound.handle_eq (same found)] at within
        exact .inr (.inr ⟨k, owner, reported, grows.key_kept named, grows.within within⟩)
  · have named : base.key? h = some key := by
      rw [← key?_link base owner h h, ← linked, registers.named]
    refine .inr (.inl ?_)
    rw [linked, parent?_link_self base owner h (.of_key? named)]
    exact Option.some_ne_none owner

end Index

namespace Kind

/-- Kinds that differ do not fit, unless they are a type and a placeholder. -/
theorem not_fits_iff {a b : Kind} :
    ¬ a.Fits b ↔ a ≠ b ∧ ¬ (a = .type ∧ b = .external) ∧ ¬ (a = .external ∧ b = .type) := by
  cases a <;> cases b <;> simp [Fits, isTypeLevel]

end Kind

namespace Index

variable {ix later : Index} {key : String} {kind : Kind} {parent : Option String}

/-! ## Repeats -/

/-- A registration that was refused is refused at any later time. -/
theorem register_refused_again (sound : ix.Sound) (grows : ix.Grows later) (sound' : later.Sound)
    {err : IndexError} (refused : ix.register key kind parent = .error err) :
    ∃ existing, later.register key kind parent = .error (.kindConflict key existing kind) := by
  have refuses := ((refuses_iff sound.toCoherent parent).mpr ⟨err, refused⟩).grows grows
  obtain ⟨err', again⟩ := (refuses_iff sound'.toCoherent parent).mp refuses
  obtain ⟨-, existing, -, -, -, rfl⟩ := (register_eq_error_iff sound'.toCoherent).mp again
  exact ⟨existing, again⟩

/-- A declaration that has been dealt with changes nothing later. -/
theorem accept_again (sound : ix.Sound) (d : Declaration) (grows : (ix.accept d).Grows later)
    (sound' : later.Sound) : later.accept d = later := by
  unfold accept at grows ⊢
  cases registered : ix.register d.key d.kind d.parent with
  | ok answer =>
      rw [registered] at grows
      rw [((register_absorbs sound registered).grows grows).register_eq sound']
  | error err =>
      rw [registered] at grows
      obtain ⟨existing, again⟩ := register_refused_again sound grows sound' registered
      rw [again]

/-- Declarations that have been dealt with change nothing, one by one. -/
theorem accept_of_mem (sound : ix.Sound) {ds : List Declaration} {d : Declaration}
    (listed : d ∈ ds) : (ds.foldl accept ix).accept d = ds.foldl accept ix := by
  obtain ⟨before, after, rfl⟩ := List.append_of_mem listed
  rw [List.foldl_append, List.foldl_cons]
  have sound₁ := sound.moves (foldl_accept_moves sound before)
  have sound₂ := sound₁.moves (accept_moves sound₁ d)
  have rest := foldl_accept_moves sound₂ after
  exact accept_again sound₁ d (.of_moves rest) (sound₂.moves rest)

theorem foldl_accept_twice (sound : ix.Sound) (ds : List Declaration) :
    (ds ++ ds).foldl accept ix = ds.foldl accept ix := by
  have absorbed (rest : List Declaration) (listed : ∀ d ∈ rest, d ∈ ds) :
      rest.foldl accept (ds.foldl accept ix) = ds.foldl accept ix := by
    induction rest with
    | nil => rfl
    | cons d rest ih =>
        rw [List.foldl_cons, accept_of_mem sound (listed d List.mem_cons_self)]
        exact ih fun d' listed' => listed d' (List.mem_cons_of_mem d listed')
  rw [List.foldl_append]
  exact absorbed ds fun _ => id

end Index

namespace Model

variable {m : Model}

/-- A registration answers with the handle or the error of the index. -/
theorem apply_register (m : Model) (key : String) (kind : Kind) (parent : Option String) :
    (∃ h index, m.index.register key kind parent = .ok (h, index) ∧
      (m.apply (.register key kind parent)).1 = .registered h ∧
      (m.apply (.register key kind parent)).2.index = index) ∨
    ∃ err, m.index.register key kind parent = .error err ∧
      m.apply (.register key kind parent) = (.refused (.index err), m) := by
  rw [apply, register]
  cases m.index.register key kind parent with
  | ok answer => exact .inl ⟨answer.1, answer.2, rfl, rfl, rfl⟩
  | error err => exact .inr ⟨err, rfl, rfl⟩

/-- A registration is refused exactly if the key is known with a kind that does not fit, whatever
owner it reports. -/
theorem apply_register_refused_iff (sound : m.index.Sound) {key : String} {kind : Kind}
    {parent : Option String} :
    (∃ err, (m.apply (.register key kind parent)).1 = .refused err) ↔
      ∃ e, m.index.find? key = some e ∧ ¬ e.kind.Fits kind := by
  have refuses_iff : m.index.Refuses key kind ↔
      ∃ e, m.index.find? key = some e ∧ ¬ e.kind.Fits kind := by
    simp only [Index.Refuses, Index.has_iff sound.toCoherent]
    constructor
    · rintro ⟨_, ⟨e, found, rfl⟩, misfit⟩
      exact ⟨e, found, misfit⟩
    · rintro ⟨e, found, misfit⟩
      exact ⟨e.kind, ⟨e, found, rfl⟩, misfit⟩
  rw [← refuses_iff, Index.refuses_iff sound.toCoherent parent]
  rcases m.apply_register key kind parent with
    ⟨h, index, registered, answer, -⟩ | ⟨err, refused, answer⟩
  · rw [registered, answer]
    simp
  · rw [refused, answer]
    exact ⟨fun _ => ⟨err, rfl⟩, fun _ => ⟨_, rfl⟩⟩

/-- The same registration once more, after changes that only let the index grow: it is answered as
before, and if it was accepted it changes nothing. -/
theorem apply_register_again {between : Model} {key : String} {kind : Kind}
    {parent : Option String} (sound : m.index.Sound)
    (moves : (m.apply (.register key kind parent)).2.index.Moves between.index) :
    let first := m.apply (.register key kind parent)
    let again := between.apply (.register key kind parent)
    again.2.index = between.index ∧
      ((∃ h, first.1 = .registered h ∧ again.1 = .registered h) ∨
        ∃ existing existing', first.1 = .refused (.index (.kindConflict key existing kind)) ∧
          again.1 = .refused (.index (.kindConflict key existing' kind))) := by
  intro first again
  have grows : first.2.index.Grows between.index := .of_moves moves
  have sound' : between.index.Sound := (m.apply_sound sound _).moves moves
  rcases m.apply_register key kind parent with
    ⟨h, index, registered, answer, after⟩ | ⟨err, refused, answer⟩
  · have absorbs := (Index.register_absorbs sound registered).grows (after ▸ grows)
    have repeated := absorbs.register_eq sound'
    rcases between.apply_register key kind parent with
      ⟨h', index', registered', answer', after'⟩ | ⟨err, refused', -⟩
    · rw [repeated] at registered'
      cases registered'
      exact ⟨after', .inl ⟨h, answer, answer'⟩⟩
    · rw [repeated] at refused'
      cases refused'
  · -- a refusal has changed nothing, and the kind that refuses is kept
    have same : first.2 = m := congrArg Prod.snd answer
    obtain ⟨existing', repeated⟩ :=
      Index.register_refused_again sound (same ▸ grows) sound' refused
    obtain ⟨-, existing, -, -, -, rfl⟩ := (Index.register_eq_error_iff sound.toCoherent).mp refused
    rcases between.apply_register key kind parent with
      ⟨h', index', registered', -, -⟩ | ⟨err, refused', answer'⟩
    · rw [repeated] at registered'
      cases registered'
    · rw [repeated] at refused'
      cases refused'
      refine ⟨congrArg (·.2.index) answer', .inr ⟨existing, existing', ?_, ?_⟩⟩
      · exact congrArg Prod.fst answer
      · exact congrArg Prod.fst answer'

/-- Declarations as changes of a model. -/
theorem index_applyAll_register (m : Model) (ds : List Declaration) :
    (m.applyAll (ds.map fun d => .register d.key d.kind d.parent)).index =
      ds.foldl Index.accept m.index := by
  induction ds generalizing m with
  | nil => rfl
  | cons d rest ih =>
      have first : (m.apply (.register d.key d.kind d.parent)).2.index = m.index.accept d := by
        unfold Index.accept
        rcases m.apply_register d.key d.kind d.parent with
          ⟨h, index, registered, -, after⟩ | ⟨err, refused, same⟩
        · rw [registered, after]
        · rw [refused, same]
      rw [List.map_cons, List.foldl_cons, ← first]
      exact ih _

end Model

/-- A registration for the findings is one for their index. -/
theorem Findings.index_declare (f : Findings) (key : String) (kind : Kind)
    (parent : Option String) :
    (f.declare key kind parent).2.index = f.index.accept ⟨kind, key, parent⟩ := by
  unfold Index.accept
  rcases declared : f.declare key kind parent with ⟨e | h, f'⟩
  · obtain ⟨refused, rfl⟩ := declare_eq_error declared
    rw [refused]
  · rw [(declare_eq_ok declared).1]

namespace SourceScan

open Scanning

variable {σ : Type} {response : ResponseVisitor} {cohesion : CohesionVisitor} {s : Session σ}

/-- Without external visitors, a source fact is registered and nothing else: the visitors of the
analysis do not listen to the source scan. -/
theorem applyDeclaration_accepts (roster : s.roster = own response cohesion) (d : Declaration) :
    (applyDeclaration d).Ends s fun _ t =>
      t.findings.index = s.findings.index.accept d ∧ t.roster = own response cohesion := by
  have registered : (s.findings.declareFact .source d.key d.kind d.parent).2.index =
      s.findings.index.accept d := by
    have declared := s.findings.index_declare d.key d.kind d.parent
    unfold Findings.declareFact
    generalize s.findings.declare d.key d.kind d.parent = result at declared ⊢
    rcases result with ⟨e | h, f'⟩
    · exact declared
    · exact declared
  unfold applyDeclaration
  refine .edit_bind ?_
  split
  · exact .pure ⟨registered, roster⟩
  · refine .findings_bind ?_
    split
    · exact .pure ⟨registered, roster⟩
    · next told =>
        refine Ends.mono (dispatch_silent roster (.inl (event?_eq_some told).1)) ?_
        rintro - t rfl
        exact ⟨registered, roster⟩

theorem forM_applyDeclaration_accepts (roster : s.roster = own response cohesion)
    (ds : List Declaration) :
    (ds.forM applyDeclaration).Ends s fun _ t =>
      t.findings.index = ds.foldl Index.accept s.findings.index := by
  induction ds generalizing s with
  | nil => exact .pure rfl
  | cons d rest ih =>
      refine (applyDeclaration_accepts roster d).bind ?_
      rintro - t ⟨index, roster⟩
      rw [List.foldl_cons, ← index]
      exact ih roster

end SourceScan

namespace Model

open SourceScan

variable {σ : Type}

/-- **A registration is absorbed forever.**  It is made once, then come any changes that do not
forget the elements, and then it is made again.  The second time the index stays exactly as it is,
with the handle of the first time, or with a conflict about the same key and kind if the first one
was refused.  It is refused exactly if the key is known with another kind and the two are not a type
and a placeholder, and then nothing changes at all.  So source facts that are applied twice,
directly or by the source scan, lead to the same index as if they were applied once. -/
theorem registration_absorbed (history later : List Change)
    (kept : ∀ change ∈ later, change ≠ .clearIndex) (key : String) (kind : Kind)
    (parent : Option String) :
    let m := ({} : Model).applyAll history
    let first := m.apply (.register key kind parent)
    let between := first.2.applyAll later
    let again := between.apply (.register key kind parent)
    again.2.index = between.index ∧
      ((∃ h, first.1 = .registered h ∧ again.1 = .registered h) ∨
        ∃ existing existing', first.1 = .refused (.index (.kindConflict key existing kind)) ∧
          again.1 = .refused (.index (.kindConflict key existing' kind))) ∧
      ((∃ err, first.1 = .refused err) ↔
        ∃ e, m.index.find? key = some e ∧ e.kind ≠ kind ∧
          ¬ (e.kind = .type ∧ kind = .external) ∧ ¬ (e.kind = .external ∧ kind = .type)) ∧
      ((∃ err, first.1 = .refused err) → first.2 = m) ∧
      ∀ facts : List Declaration,
        let applied := facts.map fun d => Change.register d.key d.kind d.parent
        (m.applyAll (applied ++ applied)).index = (m.applyAll applied).index ∧
        ∀ (s : Session σ) (response : ResponseVisitor) (cohesion : CohesionVisitor),
          s.findings.index = m.index → s.roster = Scanning.own response cohesion →
          ∃ once twice, (facts.forM applyDeclaration).runOn s = (.ok (), once) ∧
            ((facts ++ facts).forM applyDeclaration).runOn s = (.ok (), twice) ∧
            once.findings.index = (m.applyAll applied).index ∧
            twice.findings.index = once.findings.index := by
  intro m first between again
  have sound : m.index.Sound := ({} : Model).applyAll_sound .empty history
  have moves := applyAll_moves (m.apply_sound sound (.register key kind parent)) kept
  obtain ⟨unchanged, answers⟩ := apply_register_again sound moves
  refine ⟨unchanged, answers, ?_, ?_, fun facts => ?_⟩
  · rw [apply_register_refused_iff sound]
    refine exists_congr fun e => and_congr_right fun _ => ?_
    exact Kind.not_fits_iff
  · rintro ⟨err, refused⟩
    rcases m.apply_register key kind parent with ⟨h, _, -, registered, -⟩ | ⟨_, -, answer⟩
    · rw [registered] at refused
      cases refused
    · exact congrArg Prod.snd answer
  · intro applied
    have applied_index := m.index_applyAll_register facts
    refine ⟨?_, fun s response cohesion index roster => ?_⟩
    · rw [applied_index, ← List.map_append, index_applyAll_register,
        Index.foldl_accept_twice sound]
    · obtain ⟨_, once, ranOnce, indexOnce⟩ := forM_applyDeclaration_accepts roster facts
      obtain ⟨_, twice, ranTwice, indexTwice⟩ :=
        forM_applyDeclaration_accepts roster (facts ++ facts)
      rw [index] at indexOnce indexTwice
      refine ⟨once, twice, ranOnce, ranTwice, ?_, ?_⟩
      · rw [indexOnce, applied_index]
      · rw [indexTwice, indexOnce, Index.foldl_accept_twice sound]

/-- A placeholder is promoted and measured. -/
def promotion : List Change := [.register "A" .type none, .attach "A" "loc" .cycle]

/-- A placeholder that reports as its owner what it owns itself, before and after a promotion. -/
theorem registration_absorbed_circular :
    (∀ change ∈ promotion, change ≠ .clearIndex) ∧
      ∃ first between again,
        (({} : Model).applyAll [.register "p" .type (some "A")]).apply
          (.register "A" .external (some "p")) = first ∧
        first.2.applyAll promotion = between ∧
        between.apply (.register "A" .external (some "p")) = again ∧
        first.1 = .registered ⟨0⟩ ∧ again.1 = .registered ⟨0⟩ ∧ again.2.index = between.index := by
  have kept : ∀ change ∈ promotion, change ≠ .clearIndex := by simp [promotion]
  have answer : ((({} : Model).applyAll [.register "p" .type (some "A")]).apply
      (.register "A" .external (some "p"))).1 = .registered ⟨0⟩ := by decide +kernel
  obtain ⟨unchanged, answers, -⟩ := registration_absorbed (σ := Unit)
    [.register "p" .type (some "A")] promotion kept "A" .external (some "p")
  generalize (({} : Model).applyAll [.register "p" .type (some "A")]).apply
    (.register "A" .external (some "p")) = first at answer unchanged answers ⊢
  refine ⟨kept, first, _, _, rfl, rfl, rfl, answer, ?_, unchanged⟩
  rcases answers with ⟨h, registered, repeated⟩ | ⟨_, _, refused, -⟩
  · rw [answer, Outcome.registered.injEq] at registered
    rw [registered]
    exact repeated
  · rw [answer] at refused
    cases refused

end Model

end CodeMetrics
