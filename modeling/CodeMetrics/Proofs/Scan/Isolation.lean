import CodeMetrics.Proofs.Scan.Sifting

/-!
# Inputs that fail are isolated

A source file that cannot be parsed and an artifact that cannot be decoded to its end leave one issue
each, and nothing else.  The run is compared with the one in which such a file is not there and such
an artifact ends where it stopped: on the agendas, the items of the failures are left out.
-/

namespace CodeMetrics

open BytecodeScan (Progress)
open Scanning

variable {σ : Type}

/-- The artifact that ends where its decoding stopped. -/
def Artifact.whole (a : Artifact) : Artifact := { a with error := none }

/-! ## Agendas -/

/-- Whether an item is more than a message or a failure. -/
def Item.matters (item : Item) : Bool := !item.isMessage && item.failure?.isNone

theorem Item.Spare.of_not_matters {related : Report → Report → Prop} {item : Item}
    (dropped : item.matters = false)
    (unnoticed : ∀ i, item = .failure i → ∀ {r r'}, related r r' → related (r.record i) r') :
    Spare related item := by
  cases item with
  | say level message => exact .say level message
  | failure i => exact .failure (unnoticed i rfl)
  | declaration d => cases dropped
  | fileEnd => cases dropped
  | decoded path c => cases dropped
  | scanEnd phase => cases dropped

namespace SourceFile

variable {file : SourceFile}

/-- A file that cannot be parsed has its failure on the agenda, and nothing else. -/
theorem agenda_of_failure {i : Issue} (failed : file.failure? = some i) :
    file.agenda = [.failure i] := by
  unfold failure? at failed
  unfold agenda
  cases result : file.result with
  | error e =>
      rw [result] at failed
      cases failed
      rfl
  | ok declarations =>
      rw [result] at failed
      cases failed

theorem failures_agenda (file : SourceFile) :
    file.agenda.filterMap Item.failure? = file.failure?.toList := by
  unfold failure? agenda
  cases file.result with
  | error e => rfl
  | ok declarations =>
      have silent : (declarations.map Item.declaration).filterMap Item.failure? = [] := by
        simp [Item.failure?]
      simp only [List.filterMap_cons, List.filterMap_append, silent, Item.failure?]
      rfl

end SourceFile

namespace Artifact

theorem failures_agenda (a : Artifact) :
    a.agenda.filterMap Item.failure? = a.failure?.toList := by
  have opening : a.opening.filterMap Item.failure? = [] := by
    unfold Artifact.opening
    cases a.error <;> rfl
  have classes : (a.classes.map (Item.decoded a.path)).filterMap Item.failure? = [] := by
    simp [Item.failure?]
  have failure : (a.failure?.map Item.failure).toList.filterMap Item.failure? =
      a.failure?.toList := by
    cases a.failure? <;> rfl
  rw [agenda, List.filterMap_append, List.filterMap_append, opening, classes, failure]
  rfl

/-- Of the agenda of an artifact only the classes matter, in their order. -/
theorem filter_agenda (a : Artifact) :
    a.agenda.filter Item.matters = a.classes.map (.decoded a.path) := by
  have opening : a.opening.filter Item.matters = [] := by
    unfold Artifact.opening
    cases a.error <;> rfl
  have classes : (a.classes.map (Item.decoded a.path)).filter Item.matters =
      a.classes.map (Item.decoded a.path) := by
    rw [List.filter_map]
    exact congrArg _ (List.filter_eq_self.mpr fun _ _ => rfl)
  have failure : (a.failure?.map Item.failure).toList.filter Item.matters = [] := by
    cases a.failure? <;> rfl
  rw [agenda, List.filter_append, List.filter_append, opening, classes, failure, List.append_nil,
    List.nil_append]

end Artifact

namespace Analysis

/-- The failures on an agenda are those of the inputs, in their order. -/
theorem failures_agenda (sources : List SourceFile) (artifacts : List Artifact) :
    (agenda sources artifacts).filterMap Item.failure? =
      sources.filterMap SourceFile.failure? ++ artifacts.filterMap Artifact.failure? := by
  have files : (sources.flatMap SourceFile.agenda).filterMap Item.failure? =
      sources.filterMap SourceFile.failure? := by
    rw [List.filterMap_flatMap, List.filterMap_eq_flatMap_toList]
    simp only [SourceFile.failures_agenda]
  have classes : (artifacts.flatMap Artifact.agenda).filterMap Item.failure? =
      artifacts.filterMap Artifact.failure? := by
    rw [List.filterMap_flatMap, List.filterMap_eq_flatMap_toList]
    simp only [Artifact.failures_agenda]
  simp only [agenda, SourceScan.agenda, BytecodeScan.agenda, SourceScan.opening,
    BytecodeScan.opening, List.filterMap_append, List.filterMap_cons, List.filterMap_nil, files, classes,
    Item.failure?, List.append_nil]

/-- Without the inputs' failures the agenda loses nothing that matters.  What goes are the files
that could not be parsed and the errors of the artifacts. -/
theorem filter_agenda (sources : List SourceFile) (artifacts : List Artifact) :
    (agenda (sources.filter (·.failure?.isNone)) (artifacts.map Artifact.whole)).filter
      Item.matters = (agenda sources artifacts).filter Item.matters := by
  have files : ((sources.filter (·.failure?.isNone)).flatMap SourceFile.agenda).filter
      Item.matters = (sources.flatMap SourceFile.agenda).filter Item.matters := by
    induction sources with
    | nil => rfl
    | cons file rest ih =>
        rw [List.flatMap_cons, List.filter_append, ← ih]
        cases failed : file.failure? with
        | none => rw [List.filter_cons_of_pos (by rw [failed]; rfl), List.flatMap_cons,
            List.filter_append]
        | some i =>
            rw [List.filter_cons_of_neg (by rw [failed]; exact Bool.false_ne_true),
              SourceFile.agenda_of_failure failed]
            rfl
  have classes : ((artifacts.map Artifact.whole).flatMap Artifact.agenda).filter Item.matters =
      (artifacts.flatMap Artifact.agenda).filter Item.matters := by
    rw [List.filter_flatMap, List.filter_flatMap, List.flatMap_map]
    simp only [Artifact.filter_agenda]
    rfl
  simp only [agenda, SourceScan.agenda, BytecodeScan.agenda, List.filter_append, List.filter_cons,
    List.filter_nil, files, classes, SourceScan.opening, BytecodeScan.opening, Item.matters,
    Item.isMessage, Item.failure?]
  rfl

end Analysis

/-! ## Reports -/

namespace Report

/-- The second report is the first one without the failures of inputs. -/
structure Sifted (r r' : Report) : Prop where
  files : r'.filesScanned = r.filesScanned
  classes : r'.classesScanned = r.classesScanned
  issues : r'.issues.toList = r.issues.toList.filter (!·.isFailure)

theorem lasting_sifted : Lasting (·.isFailure = false) Sifted where
  record {r r' i} ordinary sifted := by
    refine ⟨sifted.files, sifted.classes, ?_⟩
    rw [record, record, Array.toList_push, Array.toList_push, List.filter_append, sifted.issues,
      List.filter_cons_of_pos (by rw [ordinary]; rfl), List.filter_nil]
  files sifted := ⟨congrArg (· + 1) sifted.files, sifted.classes, sifted.issues⟩
  classes sifted := ⟨sifted.files, congrArg (· + 1) sifted.classes, sifted.issues⟩

theorem Sifted.record_failure {r r' : Report} (sifted : r.Sifted r') {i : Issue}
    (failure : i.isFailure = true) : (r.record i).Sifted r' := by
  refine ⟨sifted.files, sifted.classes, ?_⟩
  rw [record, Array.toList_push, List.filter_append, ← sifted.issues,
    List.filter_cons_of_neg (by rw [failure]; exact Bool.false_ne_true), List.filter_nil,
    List.append_nil]

/-- The failures of inputs in a report. -/
def failures (r : Report) : List Issue := r.issues.toList.filter Issue.isFailure

theorem failures_record (r : Report) (i : Issue) :
    (r.record i).failures = r.failures ++ if i.isFailure then [i] else [] := by
  rw [failures, failures, record, Array.toList_push, List.filter_append, List.filter_cons,
    List.filter_nil]

/-- What else is reported leaves the failures as they are. -/
theorem lasting_failures (l : List Issue) :
    Lasting (·.isFailure = false) fun r _ => r.failures = l where
  record {r _ i} ordinary same := by
    rw [failures_record, ordinary, same]
    exact List.append_nil l
  files := id
  classes := id

end Report

namespace Item

variable {s t : Session σ}

/-- An item reports the failure that it is, and no other.  The issues that facts may cause are no
failures of inputs. -/
theorem failures_carryOut {item : Item} (genuine : ∀ i ∈ item.failure?, i.isFailure = true)
    {progress progress' : Progress} (own : s.IsOwn)
    (ran : (item.carryOut progress).runOn s = (.ok progress', t)) :
    t.IsOwn ∧ t.findings.report.failures = s.findings.report.failures ++ item.failure?.toList := by
  have made : Made (fun _ => True) (item.carryOut progress : Scanning σ Progress) :=
    .carryOut (fun _ _ => trivial) (fun _ _ => trivial) progress
  have own' : (item.carryOut progress |>.runOn s).2.IsOwn :=
    (made.parallel ⟨fun _ => id, id, id⟩ fun _ _ => trivial).isOwn own
  rw [ran] at own'
  refine ⟨own', ?_⟩
  cases failed : item.failure? with
  | none =>
      -- no failure is recorded, so the failures of the report do not change
      have made : Made (·.isFailure = false) (item.carryOut progress : Scanning σ Progress) := by
        refine .carryOut (fun _ => id) (fun i is => ?_) progress
        rw [is] at failed
        cases failed
      have kept := (made.parallel (Report.lasting_failures s.findings.report.failures)
        fun _ => id).report (·.failures = s.findings.report.failures) own rfl
      rw [ran] at kept
      rw [kept]
      exact (List.append_nil _).symm
  | some i =>
      have is : item = .failure i := by
        cases item <;> cases failed
        rfl
      rw [is, show (carryOut progress (.failure i) : Scanning σ Progress).runOn s =
        (.ok progress, { s with findings := s.findings.record i }) from
          runOn_bind_of_ok (runOn_alter _)] at ran
      cases ran
      have failure := genuine i failed
      rw [Findings.record, Report.failures_record, failure]
      rfl

/-- Some items, carried out one after the other, report the failures that they are, in their order.
-/
theorem failures_foldlM {items : List Item}
    (genuine : ∀ i ∈ items.filterMap failure?, i.isFailure = true) {progress progress' : Progress}
    (own : s.IsOwn) (ran : (items.foldlM carryOut progress).runOn s = (.ok progress', t)) :
    t.IsOwn ∧ t.findings.report.failures =
      s.findings.report.failures ++ items.filterMap failure? := by
  induction items generalizing progress s with
  | nil =>
      cases ran
      exact ⟨own, (List.append_nil _).symm⟩
  | cons item rest ih =>
      rw [List.foldlM_cons] at ran
      rcases run : (item.carryOut progress).runOn s with ⟨e | progress₁, s₁⟩
      · rw [runOn_bind_of_error run] at ran
        cases ran
      · rw [runOn_bind_of_ok run] at ran
        have split : (item :: rest).filterMap failure? =
            item.failure?.toList ++ rest.filterMap failure? := by
          rw [List.filterMap_cons]
          cases item.failure? <;> rfl
        rw [split] at genuine ⊢
        have genuine₁ : ∀ i ∈ item.failure?, i.isFailure = true := fun i is =>
          genuine i (List.mem_append_left _ (Option.mem_toList.mpr is))
        obtain ⟨own₁, failures₁⟩ := failures_carryOut genuine₁ own run
        obtain ⟨own', failures⟩ :=
          ih (fun i listed => genuine i (List.mem_append_right _ listed)) own₁ ran
        exact ⟨own', by rw [failures, failures₁, List.append_assoc]⟩

end Item

/-! ## Runs -/

namespace Analysis

/-- The failures of inputs are genuine. -/
theorem isFailure_of_mem_failures {sources : List SourceFile} {artifacts : List Artifact} {i : Issue}
    (listed : i ∈ (agenda sources artifacts).filterMap Item.failure?) : i.isFailure = true := by
  rw [failures_agenda, List.mem_append, List.mem_filterMap, List.mem_filterMap] at listed
  rcases listed with ⟨file, -, failed⟩ | ⟨a, -, failed⟩
  · unfold SourceFile.failure? at failed
    split at failed <;> cases failed
    rfl
  · obtain ⟨e, -, rfl⟩ := Option.map_eq_some_iff.mp failed
    rfl

variable (config : Config) (sources : List SourceFile) (artifacts : List Artifact)

/-- The failures of the inputs are reported in their order.  Other issues may stand between them. -/
theorem failures_outcome : (outcome config (agenda sources artifacts) :
      Except RunError Unit × Session σ).2.findings.report.failures =
    sources.filterMap SourceFile.failure? ++ artifacts.filterMap Artifact.failure? := by
  have ended := outcome_ok (σ := σ) config sources artifacts
  rw [← List.append_nil (agenda sources artifacts)] at ended ⊢
  obtain ⟨progress, s, run, whole⟩ := exists_of_outcome_ok ended
  obtain ⟨own, failures⟩ := Item.failures_foldlM (fun i => isFailure_of_mem_failures)
    (start_isOwn config) run
  have kept : ((remaining [] progress).runOn s).2.findings.report = s.findings.report :=
    Parallel.report (· = s.findings.report) parallel_finish own rfl
  rw [whole, kept, failures, failures_agenda]
  rfl

/-- The run without the failures of the inputs has the same outcome, but for their issues.  Both
runs carry out the same items, except for those that only report. -/
theorem outcome_sifted : Joined Report.Sifted
    (outcome config (agenda sources artifacts) : Except RunError Unit × Session σ)
    (outcome config (agenda (sources.filter (·.failure?.isNone))
      (artifacts.map Artifact.whole))) := by
  have always : Report.Lasting (fun _ => True) Eq := Report.lasting_eq
  have sifted : Joined Report.Sifted
      (outcome config (agenda sources artifacts) : Except RunError Unit × Session σ)
      (outcome config ((agenda sources artifacts).filter Item.matters)) := by
    refine outcome_filter Report.lasting_sifted ⟨rfl, rfl, rfl⟩ (fun _ => id) (fun i listed => ?_)
      fun item listed dropped => ?_
    · exact absurd (List.mem_filter.mp listed).2 Bool.false_ne_true
    · refine .of_not_matters dropped fun i is r r' sifted => sifted.record_failure ?_
      exact isFailure_of_mem_failures (List.mem_filterMap.mpr ⟨item, listed, is ▸ rfl⟩)
  have same : Joined Eq
      (outcome config (agenda (sources.filter (·.failure?.isNone))
        (artifacts.map Artifact.whole)) : Except RunError Unit × Session σ)
      (outcome config ((agenda (sources.filter (·.failure?.isNone))
        (artifacts.map Artifact.whole)).filter Item.matters)) := by
    refine outcome_filter always rfl (fun _ _ => trivial) (fun _ _ => trivial)
      fun item listed dropped => .of_not_matters dropped fun i is => ?_
    -- no failure is left
    have left : i ∈ (agenda (sources.filter (·.failure?.isNone))
        (artifacts.map Artifact.whole)).filterMap Item.failure? :=
      List.mem_filterMap.mpr ⟨item, listed, is ▸ rfl⟩
    rw [failures_agenda, List.mem_append, List.mem_filterMap, List.mem_filterMap] at left
    rcases left with ⟨file, kept, failed⟩ | ⟨a, kept, failed⟩
    · have parsed := (List.mem_filter.mp kept).2
      rw [failed] at parsed
      cases parsed
    · obtain ⟨a', -, rfl⟩ := List.mem_map.mp kept
      cases failed
  rw [filter_agenda] at same
  exact sifted.of_eq same

/-- Before the issue of a file stand the issues of the files before it, and after it those of all
that comes later. -/
theorem issues_before_file {before after : List SourceFile} {file : SourceFile} {i : Issue}
    (failed : file.failure? = some i) :
    ∃ later, (outcome config (agenda (before ++ file :: after) artifacts) :
        Except RunError Unit × Session σ).2.findings.report.issues.toList =
      (outcome config (agenda before []) :
        Except RunError Unit × Session σ).2.findings.report.issues.toList ++ i :: later := by
  have ended := outcome_ok (σ := σ) config (before ++ file :: after) artifacts
  have ended' := outcome_ok (σ := σ) config before []
  have split : agenda (before ++ file :: after) artifacts =
      (SourceScan.opening (before ++ file :: after) :: before.flatMap SourceFile.agenda) ++
        .failure i :: (after.flatMap SourceFile.agenda ++
          ([.scanEnd .source, .say .info SourceScan.closing] ++ BytecodeScan.agenda artifacts)) := by
    simp only [agenda, SourceScan.agenda, List.flatMap_append, List.flatMap_cons,
      SourceFile.agenda_of_failure failed, List.cons_append, List.nil_append, List.append_assoc]
  have split' : agenda before [] =
      (SourceScan.opening before :: before.flatMap SourceFile.agenda) ++
        ([.scanEnd .source, .say .info SourceScan.closing] ++ BytecodeScan.agenda []) := by
    simp only [agenda, SourceScan.agenda, List.cons_append, List.append_assoc]
  rw [split] at ended ⊢
  rw [split'] at ended' ⊢
  refine issues_before_failure ?_ (by decide) ended ended'
  rfl

/-- Before the issue of an artifact stand the issues of the artifacts before it and of its own
classes, which are applied before its failure is reported. -/
theorem issues_before_artifact {before after : List Artifact} {x : Artifact} {i : Issue}
    (failed : x.failure? = some i) :
    ∃ later, (outcome config (agenda sources (before ++ x :: after)) :
        Except RunError Unit × Session σ).2.findings.report.issues.toList =
      (outcome config (agenda sources (before ++ [x.whole])) :
        Except RunError Unit × Session σ).2.findings.report.issues.toList ++ i :: later := by
  have ended := outcome_ok (σ := σ) config sources (before ++ x :: after)
  have ended' := outcome_ok (σ := σ) config sources (before ++ [x.whole])
  have unannounced : x.opening = [] := by
    obtain ⟨e, error, -⟩ := Option.map_eq_some_iff.mp failed
    rw [Artifact.opening, error]
  -- cut behind the classes of the artifact, where its failure is reported
  have split : agenda sources (before ++ x :: after) =
      (SourceScan.agenda sources ++ BytecodeScan.opening (before ++ x :: after) ::
          (before.flatMap Artifact.agenda ++ x.classes.map (.decoded x.path))) ++
        .failure i :: (after.flatMap Artifact.agenda ++
          [.scanEnd .bytecode, .say .info BytecodeScan.closing]) := by
    simp only [agenda, BytecodeScan.agenda, List.flatMap_append, List.flatMap_cons, Artifact.agenda,
      unannounced, failed, Option.map_some, Option.toList_some, List.cons_append, List.nil_append,
      List.append_assoc]
  have split' : agenda sources (before ++ [x.whole]) =
      (SourceScan.agenda sources ++ BytecodeScan.opening (before ++ [x.whole]) ::
          (before.flatMap Artifact.agenda ++
            (x.whole.opening ++ x.classes.map (.decoded x.path)))) ++
        [.scanEnd .bytecode, .say .info BytecodeScan.closing] := by
    have complete : x.whole.agenda = x.whole.opening ++ x.classes.map (.decoded x.path) :=
      congrArg _ (List.append_nil _)
    simp only [agenda, BytecodeScan.agenda, List.flatMap_append, List.flatMap_singleton, complete,
      List.cons_append, List.append_assoc]
  rw [split] at ended ⊢
  rw [split'] at ended' ⊢
  refine issues_before_failure ?_ (by decide) ended ended'
  simp only [List.filter_append, List.filter_cons]
  rfl

/-- **Inputs that fail are isolated.**  Without external visitors, leave out the files that cannot be
parsed and let the artifacts that cannot be decoded end where they stop: there is the same index, the
same graph, the same superclasses and the same counts.  Only the issues of the failing inputs are
gone.  There is one for each, in the order of the inputs; that of a file follows the issues of the
files before it, and that of an artifact follows those of the artifacts before it and of its own
classes, whose number it gives. -/
theorem failing_inputs_isolated :
    ∃ a b : Analysis,
      run config ([] : List (External σ × Subscription)) sources artifacts = .ok a ∧
      run config ([] : List (External σ × Subscription)) (sources.filter (·.failure?.isNone))
        (artifacts.map Artifact.whole) = .ok b ∧
      b.index = a.index ∧ b.graph = a.graph ∧
      b.findings.superclasses = a.findings.superclasses ∧
      b.findings.report.filesScanned = a.findings.report.filesScanned ∧
      b.findings.report.classesScanned = a.findings.report.classesScanned ∧
      b.findings.report.issues.toList =
        a.findings.report.issues.toList.filter (!·.isFailure) ∧
      a.findings.report.issues.toList.filter Issue.isFailure =
        sources.filterMap SourceFile.failure? ++ artifacts.filterMap Artifact.failure? ∧
      (∀ before file after i, sources = before ++ file :: after → file.failure? = some i →
        ∃ a₁ later,
          run config ([] : List (External σ × Subscription)) before [] = .ok a₁ ∧
          a.findings.report.issues.toList = a₁.findings.report.issues.toList ++ i :: later) ∧
      ∀ before x after i, artifacts = before ++ x :: after → x.failure? = some i →
        ∃ a₁ later,
          run config ([] : List (External σ × Subscription)) sources (before ++ [x.whole]) =
            .ok a₁ ∧
          a.findings.report.issues.toList = a₁.findings.report.issues.toList ++ i :: later := by
  obtain ⟨-, agrees, -⟩ := outcome_sifted (σ := σ) config sources artifacts
  refine ⟨_, _, run_eq config sources artifacts, run_eq config _ _, agrees.model.index.symm,
    agrees.model.graph.symm, agrees.superclasses, agrees.report.files, agrees.report.classes,
    agrees.report.issues, failures_outcome config sources artifacts, ?_, ?_⟩
  · rintro before file after i rfl failed
    obtain ⟨later, split⟩ := issues_before_file (σ := σ) config artifacts failed
    exact ⟨_, later, run_eq config before [], split⟩
  · rintro before x after i rfl failed
    obtain ⟨later, split⟩ := issues_before_artifact (σ := σ) config sources failed
    exact ⟨_, later, run_eq config sources _, split⟩

end Analysis

end CodeMetrics
