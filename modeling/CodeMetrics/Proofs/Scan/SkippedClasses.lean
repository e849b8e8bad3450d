import CodeMetrics.Proofs.Key
import CodeMetrics.Proofs.Scan.Refusals
import CodeMetrics.Proofs.Scan.Repetition

/-!
# Classes that are skipped

A class whose type cannot be resolved is skipped with one conflict.  Its type is the last of up to
three registrations, after the project and the package, so what was registered before the refusal
stays in the index.  This is little: only a project that was not there yet (`Findings.residue`), and
its package only if the class itself has the key of the project.  Everything else is as before.
-/

namespace CodeMetrics

namespace Findings

open Index

variable {f f' : Findings} {key : String} {e : IndexError}

/-! ## What is registered before a class is refused -/

/-- The index with the package of a type in a project, if that can be had. -/
def housing (ix : Index) (project key : String) : Index :=
  match Key.package? key with
  | none => ix
  | some package => ix.accept (.package package project)

/-- What a refused class leaves behind where a project is registered for it: the project, and the
package of the class if the class itself has the key of the project. -/
def residue (f : Findings) (key : String) : Index :=
  let founded := f.index.accept (.project f.config.projectKey)
  if key = f.config.projectKey then housing founded f.config.projectKey key else founded

/-- A project is registered for the class: there is none, its key is free, and the type itself is
not refused at once. -/
structure Founds (f : Findings) (key : String) : Prop where
  missing : f.index.project? = none
  free : f.index.find? f.config.projectKey = none
  fit : ∀ e, f.index.find? key = some e → e.kind.isTypeLevel = true

/-- Places a type in a project. -/
def placeIn (f : Findings) (project key : String) : Except IndexError Handle × Findings :=
  match Key.package? key with
  | none => f.declare key .type (some project)
  | some package =>
    match f.declare package .package (some project) with
    | (.error e, f) => (.error e, f)
    | (.ok _, f) => f.declare key .type (some package)

/-- Placing a type is a matter of the project first, and of package and type then.  The second part
is a function of its own here, since what it leaves behind depends on the project that was provided.
-/
theorem placeType_eq_placeIn (f : Findings) (key : String) :
    f.placeType key =
      match f.ensureProject with
      | (.error e, f) => (.error e, f)
      | (.ok project, f) => f.placeIn project key := rfl

/-- A registration concerns the index and the journal.  The graph has no vertex for a new element
before a dependency or an opened class needs one. -/
theorem graph_declare (f : Findings) (key : String) (kind : Kind) (parent : Option String) :
    (f.declare key kind parent).2.graph = f.graph := by
  rcases declared : f.declare key kind parent with ⟨e | h, f'⟩
  · rw [(declare_eq_error declared).2]
  · exact (declare_eq_ok declared).2.1

/-- A refused registration leaves the findings as they were, and its error names the kind that the
key has already. -/
theorem refuses_of_declare (sound : f.index.Sound) {kind : Kind} {parent : Option String}
    (refused : f.declare key kind parent = (.error e, f')) :
    f' = f ∧ f.index.Refuses key kind ∧ ∃ existing, e = .kindConflict key existing kind := by
  obtain ⟨registered, rfl⟩ := declare_eq_error refused
  obtain ⟨-, existing, -, -, -, conflict⟩ := (register_eq_error_iff sound.toCoherent).mp registered
  exact ⟨rfl, (refuses_iff sound.toCoherent parent).mpr ⟨e, registered⟩, existing, conflict⟩

/-- A registration keeps the index sound, whether it is accepted or refused.  Nothing is asked of
the graph. -/
theorem index_sound_declare (sound : f.index.Sound) (key : String) (kind : Kind)
    (parent : Option String) : (f.declare key kind parent).2.index.Sound := by
  rw [index_declare]
  exact sound.moves (accept_moves sound _)

/-- Registering another key makes no type of this one impossible: at most it becomes a placeholder,
as an owner. -/
theorem refuses_type_of_declare (sound : f.index.Sound) {other : String} {kind : Kind}
    {parent : Option String} (apart : key ≠ other)
    (refuses : (f.declare other kind parent).2.index.Refuses key .type) :
    f.index.Refuses key .type := by
  obtain ⟨existing, has, misfit⟩ := refuses
  rcases declared : f.declare other kind parent with ⟨e | h, f'⟩
  · rw [declared, (declare_eq_error declared).2] at has
    exact ⟨existing, has, misfit⟩
  · rw [declared] at has
    rcases (has_register_iff_of_ne sound.toCoherent (declare_eq_ok declared).1 apart).mp has with
      before | ⟨-, rfl⟩
    · exact ⟨existing, before, misfit⟩
    · exact absurd (.inr ⟨rfl, rfl⟩) misfit

/-- The project is there, or its key is taken, or it is registered now.  These are the only cases,
and they are told apart by the index alone. -/
theorem ensureProject_index (sound : f.index.Sound) :
    (∃ project, f.index.project? ≠ none ∧ f.ensureProject = (.ok project, f)) ∨
      (∃ e, f.index.find? f.config.projectKey ≠ none ∧ RefusesClass e ∧
        f.ensureProject = (.error e, f)) ∨
      f.index.project? = none ∧ f.index.find? f.config.projectKey = none ∧
        f.ensureProject =
          (.ok f.config.projectKey, (f.declare f.config.projectKey .project none).2) := by
  unfold ensureProject
  cases found : f.index.project? with
  | some e => exact .inl ⟨e.key, Option.some_ne_none e, rfl⟩
  | none =>
      refine .inr ?_
      rcases declared : f.declare f.config.projectKey .project none with ⟨e | h, f'⟩
      · obtain ⟨rfl, ⟨_, has, -⟩, existing, rfl⟩ := refuses_of_declare sound declared
        obtain ⟨element, known, -⟩ := (has_iff sound.toCoherent).mp has
        refine .inl ⟨_, ?_, ⟨_, existing, .project, rfl, by decide⟩, rfl⟩
        rw [known]
        exact Option.some_ne_none element
      · obtain ⟨registered, -, config, -⟩ := declare_eq_ok declared
        refine .inr ⟨rfl, ?_, by rw [← config]; rfl⟩
        by_contra taken
        obtain ⟨element, known⟩ := Option.ne_none_iff_exists'.mp taken
        have has : f.index.Has f.config.projectKey element.kind :=
          (has_iff sound.toCoherent).mpr ⟨element, known, rfl⟩
        -- the key would be that of a project, and there is none
        have project : element.kind = .project := by
          by_contra other
          have refuses : f.index.Refuses f.config.projectKey .project :=
            ⟨_, has, fun fits => fits.elim other fun levels => by cases levels.2⟩
          obtain ⟨e, refused⟩ := (refuses_iff sound.toCoherent none).mp refuses
          rw [registered] at refused
          cases refused
        obtain ⟨g, -, is⟩ := has
        have listed := sound.mem_handlesOf.mpr (project ▸ is)
        rw [handlesOf_project_eq_empty sound.toCoherent found] at listed
        cases listed

/-- A type that is refused leaves its package behind, and that only if its own key was the reason.
If the package itself is refused, nothing is left. -/
theorem placeIn_error (sound : f.index.Sound) {project : String}
    (refused : f.placeIn project key = (.error e, f')) :
    RefusesClass e ∧ f'.graph = f.graph ∧ f'.index = housing f.index project key ∧
      (¬ f.index.Refuses key .type → f'.index = f.index) := by
  unfold placeIn at refused
  unfold housing
  cases packaged : Key.package? key with
  | none =>
      rw [packaged] at refused
      obtain ⟨rfl, -, existing, conflict⟩ := refuses_of_declare sound refused
      exact ⟨⟨key, existing, .type, conflict, by decide⟩, rfl, rfl, fun _ => rfl⟩
  | some package =>
      rw [packaged] at refused
      have index := f.index_declare package .package (some project)
      have graph := f.graph_declare package .package (some project)
      have sound₂ := index_sound_declare sound package .package (some project)
      -- a package has another key than the type, so registering it is no reason for a refusal
      have kept : (f.declare package .package (some project)).2.index.Refuses key .type →
          f.index.Refuses key .type :=
        refuses_type_of_declare sound (Key.package?_ne packaged).symm
      dsimp only at refused ⊢
      rcases declared : f.declare package .package (some project) with ⟨e' | h, f₂⟩
      · rw [declared] at refused index
        cases refused
        obtain ⟨rfl, -, existing, conflict⟩ := refuses_of_declare sound declared
        exact ⟨⟨package, existing, .package, conflict, by decide⟩, rfl, index, fun _ => rfl⟩
      · rw [declared] at refused index graph sound₂ kept
        obtain ⟨rfl, refuses, existing, conflict⟩ := refuses_of_declare sound₂ refused
        exact ⟨⟨key, existing, .type, conflict, by decide⟩, graph, index,
          fun fit => absurd (kept refuses) fit⟩

/-- A type that may be placed is refused for the project, for its package, or because it has the key
of a project that has just been registered. -/
theorem placeType_error (sound : f.index.Sound)
    (fit : ∀ e, f.index.find? key = some e → e.kind.isTypeLevel = true)
    (refused : f.placeType key = (.error e, f')) :
    RefusesClass e ∧ f'.graph = f.graph ∧ (f.Founds key ∧ f'.index = f.residue key ∨
      ¬ f.Founds key ∧ f'.index = f.index) := by
  have fits : ¬ f.index.Refuses key .type := by
    rintro ⟨_, has, misfit⟩
    obtain ⟨element, found, rfl⟩ := (has_iff sound.toCoherent).mp has
    exact misfit (.inr ⟨fit element found, rfl⟩)
  rw [placeType_eq_placeIn] at refused
  rcases ensureProject_index sound with
    ⟨project, there, ensured⟩ | ⟨e', taken, conflict, ensured⟩ | ⟨missing, free, ensured⟩
  · rw [ensured] at refused
    obtain ⟨conflict, graph, -, index⟩ := placeIn_error sound refused
    exact ⟨conflict, graph, .inr ⟨fun founds => there founds.missing, index fits⟩⟩
  · rw [ensured] at refused
    cases refused
    exact ⟨conflict, rfl, .inr ⟨fun founds => taken founds.free, rfl⟩⟩
  · rw [ensured] at refused
    have sound₁ := index_sound_declare sound f.config.projectKey .project none
    obtain ⟨conflict, graph, index, unhoused⟩ := placeIn_error sound₁ refused
    have founded := f.index_declare f.config.projectKey .project none
    refine ⟨conflict, graph.trans (f.graph_declare _ _ _), .inl ⟨⟨missing, free, fit⟩, ?_⟩⟩
    rw [founded] at index unhoused
    unfold residue
    split
    · exact index
    · next apart =>
        refine unhoused fun refuses => fits ?_
        exact refuses_type_of_declare sound apart (founded ▸ refuses)

/-- What is left of a class that is refused: nothing, or the project and the package that were made
for it before its own key turned out to be taken. -/
theorem resolveType_error (sound : f.index.Sound) (refused : f.resolveType key = (.error e, f')) :
    RefusesClass e ∧ f'.graph = f.graph ∧ (f.Founds key ∧ f'.index = f.residue key ∨
      ¬ f.Founds key ∧ f'.index = f.index) := by
  unfold resolveType at refused
  cases found : f.index.find? key with
  | none =>
      rw [found] at refused
      refine placeType_error sound (fun element known => ?_) refused
      rw [found] at known
      cases known
  | some element =>
      rw [found] at refused
      dsimp only at refused
      split at refused
      · cases refused
      · next external =>
          refine placeType_error sound (fun element' known => ?_) refused
          rw [found, Option.some.injEq] at known
          rw [← known, external]
          rfl
      · next typed external =>
          cases refused
          refine ⟨⟨key, _, .type, rfl, by decide⟩, rfl, .inr ⟨fun founds => ?_, rfl⟩⟩
          rcases Kind.isTypeLevel_iff.mp (founds.fit element found) with is | is
          · exact typed is
          · exact external is

/-- The project that is registered for a class is new, so what is left of the class is not nothing.
-/
theorem Founds.residue_ne (founds : f.Founds key) (sound : f.index.Sound) :
    f.residue key ≠ f.index := by
  have founded : f.index.accept (.project f.config.projectKey) =
      (f.index.insert f.config.projectKey .project).2 := by
    have registered : f.index.register f.config.projectKey .project none =
        .ok (f.index.insert f.config.projectKey .project) := by
      rw [register, founds.free]
      rfl
    unfold accept Declaration.project
    rw [registered]
  have sound₁ := sound.moves (accept_moves sound (.project f.config.projectKey))
  have grows : (f.index.accept (.project f.config.projectKey)).Grows (f.residue key) := by
    unfold residue housing
    split
    · split
      · exact .refl _
      · exact .of_moves (accept_moves sound₁ _)
    · exact .refl _
  have named : (f.residue key).key? ⟨f.index.size⟩ = some f.config.projectKey :=
    grows.key_kept (by rw [founded, key?_insert, if_pos rfl])
  intro same
  rw [same] at named
  exact not_knows_size f.index (.of_key? named)

end Findings

namespace BytecodeScan

open Scanning Findings

variable {σ : Type}

/-- **A skipped class leaves at most its project and its package behind.**  If the type of a class
cannot be resolved, the class is skipped: no visitor is called, and the graph, the superclasses and
the progress of the scan stay as they are.  One conflict is recorded, about a type, a package or a
project.  The index stays as it is too, unless a project had to be registered for the class, because
there was none, its key was free and the type itself was no reason for a refusal.  Then the project
stays, and besides only the package of a class that has the key of the project itself. -/
theorem skipped_class_leaves_residue (changes : List Model.Change) (s : Session σ)
    (reached : s.findings.index = (({} : Model).applyAll changes).index) (path : String)
    (progress : Progress) (c : ClassFacts) {e : IndexError}
    (refused : (s.findings.resolveType c.key).1 = .error e) :
    ∃ t, (scanClass path progress c).runOn s = (.ok progress, t) ∧
      t.roster = s.roster ∧ t.transcript = s.transcript ∧
      t.findings.graph = s.findings.graph ∧
      t.findings.superclasses = s.findings.superclasses ∧
      t.findings.config = s.findings.config ∧
      (∃ conflicting existing requested, e = .kindConflict conflicting existing requested ∧
        requested ∈ [Kind.type, .package, .project] ∧
        t.findings.report =
          s.findings.report.record (.kindConflict .bytecode conflicting existing requested)) ∧
      (t.findings.index = s.findings.index ↔ ¬ s.findings.Founds c.key) ∧
      (s.findings.Founds c.key → t.findings.index = s.findings.residue c.key) := by
  have sound : s.findings.index.Sound := by
    rw [reached]
    exact ({} : Model).applyAll_sound .empty changes
  have skips : (scanClass path progress c).Ends s fun p t =>
      p = progress ∧ t = { s with findings :=
        (s.findings.resolveType c.key).2.record (.ofIndexError .bytecode c.key e) } := by
    unfold scanClass
    refine .edit_bind ?_
    rw [refused]
    exact .alter_bind (.pure ⟨rfl, rfl⟩)
  obtain ⟨_, t, ran, rfl, rfl⟩ := skips
  have tacit := s.findings.resolveType_tacit c.key
  rcases resolved : s.findings.resolveType c.key with ⟨r, f'⟩
  rw [resolved] at refused tacit ran
  cases refused
  obtain ⟨⟨conflicting, existing, requested, rfl, listed⟩, graph, left⟩ :=
    resolveType_error sound resolved
  refine ⟨_, ran, rfl, rfl, graph, tacit.superclasses, tacit.config, ?_, ?_, ?_⟩
  · exact ⟨conflicting, existing, requested, rfl, listed, by rw [← tacit.report]; rfl⟩
  · rcases left with ⟨founds, index⟩ | ⟨unfounded, index⟩
    · exact iff_of_false (fun same => founds.residue_ne sound (index.symm.trans same))
        fun unfounded => unfounded founds
    · exact iff_of_true index unfounded
  · intro founds
    exact left.elim And.right fun unfounded => absurd founds unfounded.1

/-- A type that has the key of a package. -/
def typeForPackage : List Model.Change := [.register "a" .type none]

/-- A class in the package of that key. -/
def packagedClass : ClassFacts := ⟨"a/B", none, [], [], []⟩

/-- The class is skipped for its package, and the project that was registered for it stays. -/
theorem packagedClass_leaves_project :
    let s : Session Unit :=
      { findings := { index := (({} : Model).applyAll typeForPackage).index } }
    (s.findings.resolveType packagedClass.key).1 = .error (.kindConflict "a" .type .package) ∧
      (s.findings.index.elements.toList.map fun e => (e.key, e.kind)) = [("a", .type)] ∧
      ((((scanClass "B.class" {} packagedClass).runOn s).2.findings.index.elements.toList.map
        fun e => (e.key, e.kind)) = [("a", .type), ("project", .project)]) := by
  refine ⟨?_, ?_, ?_⟩
  · decide +kernel
  · decide +kernel
  · decide +kernel

theorem skipped_class_leaves_residue_packagedClass :
    ∃ s t : Session Unit, s.findings.index = (({} : Model).applyAll typeForPackage).index ∧
      (s.findings.resolveType packagedClass.key).1 = .error (.kindConflict "a" .type .package) ∧
      (scanClass "B.class" {} packagedClass).runOn s = (.ok {}, t) ∧
      t.findings.graph = s.findings.graph ∧
      t.findings.index = s.findings.residue packagedClass.key ∧
      t.findings.index ≠ s.findings.index := by
  have refused : (({ index := (({} : Model).applyAll typeForPackage).index } : Findings).resolveType
      packagedClass.key).1 = .error (.kindConflict "a" .type .package) := by decide +kernel
  have missing : (({} : Model).applyAll typeForPackage).index.project? = none := by decide +kernel
  have free : (({} : Model).applyAll typeForPackage).index.find? "project" = none := by
    decide +kernel
  have unknown : (({} : Model).applyAll typeForPackage).index.find? "a/B" = none := by
    decide +kernel
  obtain ⟨t, ran, -, -, graph, -, -, -, unchanged, residue⟩ := skipped_class_leaves_residue
    typeForPackage ({ findings := { index := (({} : Model).applyAll typeForPackage).index } } :
      Session Unit) rfl "B.class" {} packagedClass refused
  generalize (({} : Model).applyAll typeForPackage).index = ix at *
  have founds : ({ index := ix } : Findings).Founds packagedClass.key := by
    refine ⟨missing, free, fun e known => ?_⟩
    cases unknown.symm.trans known
  exact ⟨_, t, rfl, refused, ran, graph, residue founds, fun same => unchanged.mp same founds⟩

end BytecodeScan

end CodeMetrics
