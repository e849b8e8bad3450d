import CodeMetrics.Proofs.Index.Anticipation
import CodeMetrics.Proofs.Index.Remeasured
import CodeMetrics.Proofs.Scan.Sources
import CodeMetrics.Proofs.Scan.Story

/-!
# Consistent source facts

The source scan registers the declarations of all files in order.  Whatever visitors do meanwhile,
they reach the measures only, so that the structure of the index and the conflicts in the report are
those of the bare declarations (`Findings.Declares`).

For declarations that agree on the kind of every key, the conflicts are known exactly: a key is in
conflict if it is no type and was named as an owner too early, before its own declaration.  Where
owners come first there is none.
-/

namespace CodeMetrics

open Scanning

variable {σ : Type}

/-! ## Findings -/

namespace Index

/-- The structure of an index: no element has a measure. -/
def unmeasured (ix : Index) : Index := ix.remeasured fun _ => ∅

theorem unmeasured_measured (ix : Index) (h : Handle) (name : String) (value : Measure) :
    (ix.measured h name value).unmeasured = ix.unmeasured :=
  ix.remeasured_modify_of_kept _ h fun _ => rfl

theorem kind_find?_unmeasured (ix : Index) (key : String) :
    (ix.unmeasured.find? key).map Element.kind = (ix.find? key).map Element.kind := by
  rw [unmeasured, find?_remeasured, Option.map_map]
  rfl

/-- Indexes of one structure register alike. -/
theorem register_unmeasured {ix ix' : Index} (same : ix.unmeasured = ix'.unmeasured) (key : String)
    (kind : Kind) (parent : Option String) :
    (ix.register key kind parent).map (fun (h, ix) => (h, ix.unmeasured)) =
      (ix'.register key kind parent).map fun (h, ix) => (h, ix.unmeasured) := by
  have commutes (ix : Index) : ix.unmeasured.register key kind parent =
      (ix.register key kind parent).map fun (h, ix) => (h, ix.unmeasured) :=
    ix.remeasured_register key kind rfl parent
  rw [← commutes, ← commutes, same]

end Index

namespace Findings

open Index Declaration

variable {f f' : Findings} {done : List Declaration}

/-- The findings after some declarations, measures apart. -/
structure Declares (done : List Declaration) (f : Findings) : Prop where
  index : f.index.unmeasured = (declaring done).unmeasured
  conflicts : ∀ phase key existing requested,
    Issue.kindConflict phase key existing requested ∈ f.report.issues ↔
      phase = .source ∧ Refused done key existing requested

namespace Declares

theorem initial (config : Config) : Declares [] { config := config } where
  index := rfl
  conflicts phase key existing requested := by
    constructor
    · intro listed
      cases listed with
      | mk listed => cases listed
    · rintro ⟨-, before, d, after, split, -⟩
      simp at split

theorem of_same (declares : Declares done f) (index : f'.index.unmeasured = f.index.unmeasured)
    (issues : f'.report.issues = f.report.issues) : Declares done f' where
  index := index.trans declares.index
  conflicts := by
    rw [issues]
    exact declares.conflicts

theorem effect (declares : Declares done f) (effect : Effect) : Declares done (effect.apply f) := by
  cases effect with
  | attach h name value =>
      rcases f.attach_cases h name value with ⟨-, attached⟩ | unknown
      · rw [attached]
        exact declares.of_same (f.index.unmeasured_measured h name value) rfl
      · rw [unknown]
        exact declares
  | superclass h above => exact declares.of_same rfl rfl
  | say level message => exact declares.of_same rfl rfl

theorem effects (declares : Declares done f) (effects : List Effect) :
    Declares done (effects.foldl Effect.apply f) := by
  induction effects generalizing f with
  | nil => exact declares
  | cons effect rest ih => exact ih (declares.effect effect)

/-- A file that cannot be parsed is no conflict. -/
theorem skip (declares : Declares done f) (path message : String) :
    Declares done (f.record (.parseFailed path message)) where
  index := declares.index
  conflicts phase key existing requested := by
    rw [← declares.conflicts]
    exact Array.mem_push.trans (or_iff_left fun same => by cases same)

/-- One more declaration is registered or refused.  If it is refused, then by a kind that an earlier
declaration has given to its key, or by the placeholder that one has made for it. -/
theorem declareFact (declares : Declares done f) (d : Declaration) :
    Declares (done ++ [d]) (f.declareFact .source d.key d.kind d.parent).2 := by
  have alike := register_unmeasured declares.index d.key d.kind d.parent
  unfold Findings.declareFact
  rcases result : f.declare d.key d.kind d.parent with ⟨e | h, f'⟩
  · obtain ⟨refused, rfl⟩ := declare_eq_error result
    rw [refused] at alike
    -- the replayed history has no measures, but registrations do not look at these
    cases replayed : (declaring done).register d.key d.kind d.parent with
    | ok answer => rw [replayed] at alike; cases alike
    | error e' =>
        rw [replayed] at alike
        cases alike
        obtain ⟨-, existing, -, -, -, rfl⟩ :=
          (register_eq_error_iff (declaring_sound done).toCoherent).mp replayed
        refine ⟨?_, fun phase key existing' requested => ?_⟩
        · rw [declaring_concat, accept, replayed]
          exact declares.index
        · -- the conflicts are those of before, and this one
          rw [refused_concat_iff, replayed]
          refine Array.mem_push.trans ?_
          rw [declares.conflicts]
          simp only [Issue.ofIndexError, Issue.kindConflict.injEq, Except.error.injEq,
            IndexError.kindConflict.injEq]
          constructor
          · rintro (⟨rfl, earlier⟩ | ⟨rfl, rfl, rfl, rfl⟩)
            · exact ⟨rfl, .inl earlier⟩
            · exact ⟨rfl, .inr ⟨rfl, rfl, rfl⟩⟩
          · rintro ⟨rfl, earlier | ⟨rfl, rfl, rfl⟩⟩
            · exact .inl ⟨rfl, earlier⟩
            · exact .inr ⟨rfl, rfl, rfl, rfl⟩
  · obtain ⟨registered, -, -, report, -⟩ := declare_eq_ok result
    rw [registered] at alike
    cases replayed : (declaring done).register d.key d.kind d.parent with
    | error e => rw [replayed] at alike; cases alike
    | ok answer =>
        rw [replayed] at alike
        refine ⟨?_, fun phase key existing requested => ?_⟩
        · rw [declaring_concat, accept, replayed]
          exact congrArg Prod.snd (Except.ok.inj alike)
        · dsimp only
          rw [report, declares.conflicts, refused_concat_iff, replayed]
          simp

theorem kind_find? (declares : Declares done f) {key : String} {kind : Kind}
    (has : (declaring done).Has key kind) : (f.index.find? key).map Element.kind = some kind := by
  rw [← kind_find?_unmeasured, declares.index, kind_find?_unmeasured]
  exact has.find? (declaring_sound done).toCoherent

end Declares

end Findings

/-! ## The scan -/

namespace SourceScan

open Session Findings

variable {s : Session σ} {done : List Declaration}

/-- Some of the declarations were applied, in order, when a visitor stopped the scan. -/
def Halted (done rest : List Declaration) (_ : RunError) (t : Session σ) : Prop :=
  ∃ applied left, rest = applied ++ left ∧ t.findings.Declares (done ++ applied)

/-- Visitors change nothing that matters here, whether one of them fails or not. -/
theorem dispatch_declares (declares : s.findings.Declares done) {e : Event}
    (staying : e.kind ≠ .leaveType) :
    (dispatch e).Runs s (fun _ t => t.findings.Declares done)
      fun _ t => t.findings.Declares done := by
  have leaving : ∀ visit, e = .leaveType visit → s.findings.index.Knows visit.element := by
    rintro visit rfl
    exact absurd rfl staying
  have heard {calls : List Callback} {t : Session σ} (hears : Hears calls s t) :
      t.findings.Declares done := by
    rw [hears.findings]
    exact declares.effects _
  refine (dispatch_runs e leaving).mono ?_ ?_
  · rintro - t ⟨calls, hears, -⟩
    exact heard hears
  · rintro - - ⟨calls, u, message, hears, rfl, -⟩
    exact (heard hears).of_same rfl rfl

/-- A declaration is among those that were made, even if a visitor then fails on it. -/
theorem applyDeclaration_declares (declares : s.findings.Declares done) (d : Declaration) :
    (applyDeclaration d).Runs s (fun _ t => t.findings.Declares (done ++ [d]))
      fun _ t => t.findings.Declares (done ++ [d]) := by
  have declared := declares.declareFact d
  unfold applyDeclaration
  refine .edit_bind ?_
  split
  · exact .pure declared
  · refine .findings_bind ?_
    split
    · exact .pure declared
    · next told =>
        obtain ⟨-, staying, -⟩ := event?_eq_some told
        exact dispatch_declares (s := { s with findings := _ }) declared staying

/-- Declarations are made one after the other.  If a visitor fails, an initial part of them was
made. -/
theorem forM_applyDeclaration_declares (declares : s.findings.Declares done)
    (ds : List Declaration) :
    (ds.forM applyDeclaration).Runs s (fun _ t => t.findings.Declares (done ++ ds))
      (Halted done ds) := by
  induction ds generalizing s done with
  | nil => exact .pure (by rwa [List.append_nil])
  | cons d rest ih =>
      refine Runs.bind ((applyDeclaration_declares declares d).mono (fun _ _ => id) ?_) ?_
      · intro _ t declared
        exact ⟨[d], rest, rfl, declared⟩
      · intro _ t declared
        refine (ih declared).mono ?_ ?_
        · intro _ u declared
          rwa [List.append_assoc, List.singleton_append] at declared
        · rintro _ u ⟨applied, left, rfl, declared⟩
          refine ⟨d :: applied, left, rfl, ?_⟩
          rwa [List.append_assoc, List.singleton_append] at declared

/-- A file makes its declarations, and one that could not be parsed has none. -/
theorem scanFile_declares (declares : s.findings.Declares done) (file : SourceFile) :
    (scanFile file).Runs s (fun _ t => t.findings.Declares (done ++ file.declarations))
      (Halted done file.declarations) := by
  unfold scanFile SourceFile.declarations
  cases file.result with
  | error e =>
      refine .alter ?_
      rw [List.append_nil]
      exact declares.skip _ _
  | ok declarations =>
      refine .alter_bind ?_
      refine Runs.bind (forM_applyDeclaration_declares ?_ declarations) fun _ t declared => ?_
      · exact declares.of_same rfl rfl
      · exact .alter (declared.of_same rfl rfl)

/-- Scanning files registers their declarations in order.  If a visitor stops the scan, then it does
so within one of them, and the declarations up to there were registered. -/
theorem forM_scanFile_declares (declares : s.findings.Declares done) (files : List SourceFile) :
    (files.forM scanFile).Runs s
      (fun _ t => t.findings.Declares (done ++ files.flatMap SourceFile.declarations))
      (Halted done (files.flatMap SourceFile.declarations)) := by
  induction files generalizing s done with
  | nil => exact .pure (by simpa using declares)
  | cons file rest ih =>
      rw [List.flatMap_cons]
      refine Runs.bind ((scanFile_declares declares file).mono (fun _ _ => id) ?_) ?_
      · rintro _ t ⟨applied, left, split, declared⟩
        exact ⟨applied, left ++ rest.flatMap SourceFile.declarations,
          by rw [split, List.append_assoc], declared⟩
      · intro _ t declared
        refine (ih declared).mono ?_ ?_
        · intro _ u declared
          rwa [List.append_assoc] at declared
        · rintro _ u ⟨applied, left, split, declared⟩
          refine ⟨file.declarations ++ applied, left, by rw [split, List.append_assoc], ?_⟩
          rwa [List.append_assoc] at declared

/-- The source scan applies the declarations of its files, in order; if a visitor stops it, some of
them. -/
theorem run_declares (declares : s.findings.Declares []) (files : List SourceFile) :
    (run files).Runs s
      (fun _ t => t.findings.Declares (files.flatMap SourceFile.declarations))
      (Halted [] (files.flatMap SourceFile.declarations)) := by
  unfold run
  refine .alter_bind ?_
  refine Runs.bind (forM_scanFile_declares ?_ files) fun _ t declared => ?_
  · exact declares.of_same rfl rfl
  · rw [List.nil_append] at declared
    refine Runs.bind ((dispatch_declares declared (by decide)).mono (fun _ _ => id) ?_) ?_
    · intro _ u declared
      exact ⟨_, [], (List.append_nil _).symm, declared⟩
    · intro _ u declared
      exact .alter (declared.of_same rfl rfl)

/-! ## Consistent declarations -/

open Declaration

/-- **Consistent declarations conflict exactly where an owner comes too late.**  Whatever visitors do,
the source scan ends unless one of the external visitors stops it: an error is the answer of such a
visitor to the last call.  The declarations that the scan has applied, which are all of them if it
has ended, are refused with a conflict if their key was anticipated as an owner and is no type; such
a key stays a placeholder, and every other key has its kind.  So where owners come first there is no
conflict, and every declared key has its kind. -/
theorem consistent_sources_exact (config : Config) (visitors : List (External σ × Subscription))
    (sources : List SourceFile)
    (consistent : Declaration.Consistent (sources.flatMap SourceFile.declarations)) :
    (visitors = [] → ((run sources).runOn (Analysis.start config visitors)).1 = .ok ()) ∧
      ∀ r t, (run sources).runOn (Analysis.start config visitors) = (r, t) →
        (∀ error, r = .error error → ∃ i v call reason, visitors[i]? = some v ∧
          t.transcript.toList.getLast? = some call ∧
          call.slot = (Analysis.ownVisitors config : List (Subscriber σ)).length + i ∧
          call.reaction.failure = some reason ∧
          error = .visitor v.1.name call.event.phase call.event.kind reason) ∧
        ∃ applied left, sources.flatMap SourceFile.declarations = applied ++ left ∧
          (r = .ok () → left = []) ∧
          (∀ phase key existing requested,
            Issue.kindConflict phase key existing requested ∈ t.findings.report.issues ↔
              phase = .source ∧ existing = .external ∧ requested.isTypeLevel = false ∧
                Anticipated applied key ∧ ∃ d ∈ applied, d.key = key ∧ d.kind = requested) ∧
          (∀ d ∈ applied,
            (d.kind.isTypeLevel = true ∨ ¬ Anticipated applied d.key →
              (t.findings.index.find? d.key).map Element.kind = some d.kind) ∧
            (d.kind.isTypeLevel = false → Anticipated applied d.key →
              (t.findings.index.find? d.key).map Element.kind = some .external)) ∧
          (Punctual (sources.flatMap SourceFile.declarations) →
            (∀ phase key existing requested,
              Issue.kindConflict phase key existing requested ∉ t.findings.report.issues) ∧
            ∀ d ∈ applied, (t.findings.index.find? d.key).map Element.kind = some d.kind) := by
  refine ⟨?_, fun r t ran => ⟨?_, ?_⟩⟩
  · rintro rfl
    obtain ⟨_, _, ended, -⟩ := run_ends (Declared.initial config)
      (s := Analysis.start config []) rfl sources
    rw [ended]
  · rintro error rfl
    have runs := (steps_underway _).run sources (Analysis.start_underway config visitors)
    exact Analysis.blamed_of_stopped (runs.error ran)
  · -- all declarations were applied, or those before a visitor failed
    obtain ⟨applied, left, split, whole, declares⟩ : ∃ applied left,
        sources.flatMap SourceFile.declarations = applied ++ left ∧ (r = .ok () → left = []) ∧
          t.findings.Declares applied := by
      have runs := run_declares (s := Analysis.start config visitors) (.initial config) sources
      cases r with
      | ok _ => exact ⟨_, [], (List.append_nil _).symm, fun _ => rfl, runs.ok ran⟩
      | error e =>
          obtain ⟨applied, left, split, declares⟩ := runs.error ran
          exact ⟨applied, left, split, fun ended => (by cases ended), declares⟩
    rw [split] at consistent ⊢
    refine ⟨applied, left, rfl, whole, ?_, ?_, ?_⟩
    · intro phase key existing requested
      rw [declares.conflicts, consistent.of_append.refused_iff]
    · intro d listed
      refine ⟨fun timely => ?_, fun level anticipated => ?_⟩
      · exact declares.kind_find? (consistent.of_append.has_kind listed timely)
      · exact declares.kind_find? (consistent.of_append.has_external listed level anticipated)
    · intro punctual
      have timely {d : Declaration} (listed : d ∈ applied) (level : d.kind.isTypeLevel = false) :=
        consistent.not_anticipated punctual (List.mem_append_left left listed) level
      refine ⟨fun phase key existing requested recorded => ?_, fun d listed => ?_⟩
      · rw [declares.conflicts, consistent.of_append.refused_iff] at recorded
        obtain ⟨-, -, level, anticipated, d, listed, rfl, rfl⟩ := recorded
        exact timely listed level anticipated
      · refine declares.kind_find? (consistent.of_append.has_kind listed ?_)
        cases level : d.kind.isTypeLevel with
        | true => exact .inl rfl
        | false => exact .inr (timely listed level)

/-- A method of a type in one file, and the type itself in the next. -/
def lateType : List SourceFile :=
  [⟨"m.java", .ok [.method "A" "m()V"]⟩, ⟨"A.java", .ok [.type "A" none]⟩]

theorem consistent_sources_exact_lateType :
    Declaration.Consistent (lateType.flatMap SourceFile.declarations) ∧
      ∃ t, (run lateType).runOn (Analysis.start (σ := Unit) {} []) = (.ok (), t) ∧
        (t.findings.index.find? "A").map Element.kind = some .type := by
  have consistent : Declaration.Consistent (lateType.flatMap SourceFile.declarations) := by
    decide +kernel
  obtain ⟨ends, exact⟩ := consistent_sources_exact (σ := Unit) {} [] lateType consistent
  rcases ran : (run lateType).runOn (Analysis.start (σ := Unit) {} []) with ⟨r, t⟩
  obtain rfl : r = .ok () := by
    rw [ran] at ends
    exact ends rfl
  obtain ⟨-, applied, left, split, whole, -, kinds, -⟩ := exact _ t ran
  obtain rfl := whole rfl
  have listed : Declaration.type "A" none ∈ applied := by
    rw [← List.append_nil applied, ← split]
    decide +kernel
  exact ⟨consistent, t, rfl, (kinds _ listed).1 (.inl rfl)⟩

/-- A type that names a project as its owner, and the project itself after it. -/
def lateProject : List SourceFile :=
  [⟨"A.java", .ok [.type "A" (some "p"), .project "p"]⟩]

/-- The declarations agree on every kind, but the project is in conflict with its placeholder. -/
theorem lateProject_conflicts :
    Declaration.Consistent (lateProject.flatMap SourceFile.declarations) ∧
      ((run lateProject).runOn (Analysis.start (σ := Unit) {} [])).2.findings.report.issues =
        #[.kindConflict .source "p" .external .project] ∧
      (((run lateProject).runOn (Analysis.start (σ := Unit) {} [])).2.findings.index.find? "p").map
        Element.kind = some .external := by
  refine ⟨?_, ?_, ?_⟩
  · decide +kernel
  · decide +kernel
  · decide +kernel

end SourceScan

end CodeMetrics
