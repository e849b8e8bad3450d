import CodeMetrics.Proofs.Scan.Following
import CodeMetrics.Proofs.Scan.Induction

/-!
# The source scan, and both scans together

The source scan only registers.  Whatever the source files declare, it leaves a sound index, an
empty graph and no recorded superclass; without external visitors it cannot stop.  A declaration
that is refused is a conflict of kinds in the source scan, which is no dispute of the bytecode scan.

From such findings the bytecode scan follows its outline.  What is in the index then counts as
deeds that were done before.
-/

namespace CodeMetrics

open Scanning

variable {σ : Type}

namespace SourceScan

/-- Findings with nothing but declarations in them. -/
structure Declared (config : Config) (f : Findings) : Prop where
  sound : f.index.Sound
  graph : f.graph = {}
  superclasses : f.superclasses = ∅
  config : f.config = config
  undisputed : ¬ f.Disputed

namespace Declared

variable {config : Config} {f f' : Findings}

theorem initial (config : Config) : Declared config { config := config } where
  sound := .empty
  graph := rfl
  superclasses := rfl
  config := rfl
  undisputed := by
    rintro ⟨i, listed, -⟩
    cases listed

theorem steady (declared : Declared config f) : f.Steady where
  index := declared.sound
  graph := declared.graph ▸ .empty
  founded := declared.graph ▸ .empty _

/-- Messages, counters and issues that are no disputes do not matter. -/
theorem of_same (declared : Declared config f) (index : f'.index = f.index)
    (graph : f'.graph = f.graph) (superclasses : f'.superclasses = f.superclasses)
    (same : f'.config = f.config) {notices : List Issue}
    (issues : f'.report.issues.toList = f.report.issues.toList ++ notices)
    (harmless : ∀ i ∈ notices, i.isDispute = false) : Declared config f' where
  sound := index ▸ declared.sound
  graph := graph.trans declared.graph
  superclasses := superclasses.trans declared.superclasses
  config := same.trans declared.config
  undisputed := by
    rintro ⟨i, listed, dispute⟩
    rw [issues] at listed
    rcases List.mem_append.mp listed with old | new
    · exact declared.undisputed ⟨i, old, dispute⟩
    · rw [harmless i new] at dispute
      cases dispute

theorem say (declared : Declared config f) (level : Level) (message : String) :
    Declared config (f.say level message) :=
  declared.of_same rfl rfl rfl rfl (List.append_nil _).symm (List.forall_mem_nil _)

theorem record (declared : Declared config f) {i : Issue} (harmless : i.isDispute = false) :
    Declared config (f.record i) :=
  declared.of_same rfl rfl rfl rfl Array.toList_push fun i' listed => by
    rw [List.mem_singleton.mp listed, harmless]

/-- A declaration is registered, or refused with an issue. -/
theorem declareFact (declared : Declared config f) (key : String) (kind : Kind)
    (parent : Option String) : Declared config (f.declareFact .source key kind parent).2 := by
  unfold Findings.declareFact
  rcases result : f.declare key kind parent with ⟨e | h, f'⟩
  · obtain ⟨refused, rfl⟩ := Findings.declare_eq_error result
    obtain ⟨-, -, -, -, -, rfl⟩ :=
      (Index.register_eq_error_iff declared.sound.toCoherent).mp refused
    exact declared.record rfl
  · obtain ⟨registered, graph, same, report, superclasses⟩ := Findings.declare_eq_ok result
    refine ⟨declared.sound.moves (Index.register_moves declared.sound registered),
      graph.trans declared.graph, superclasses.trans declared.superclasses,
      same.trans declared.config, ?_⟩
    rw [Findings.Disputed, report]
    exact declared.undisputed

end Declared

/-! ## Files -/

section Files

variable {config : Config} {response : ResponseVisitor} {cohesion : CohesionVisitor} {s : Session σ}

/-- A declaration is applied; the visitors of the analysis itself are told of nothing. -/
theorem applyDeclaration_ends (declared : Declared config s.findings)
    (roster : s.roster = own response cohesion) (d : Declaration) :
    (applyDeclaration d).Ends s fun _ t =>
      Declared config t.findings ∧ t.roster = own response cohesion := by
  have registered := declared.declareFact d.key d.kind d.parent
  unfold applyDeclaration
  refine .edit_bind ?_
  split
  · exact .pure ⟨registered, roster⟩
  · refine .findings_bind ?_
    split
    · exact .pure ⟨registered, roster⟩
    · next told =>
        refine Ends.mono (dispatch_silent roster (.inl (event?_eq_some told).1)) ?_
        rintro - t rfl
        exact ⟨registered, roster⟩

/-- A file leaves declarations only, and the visitors of the analysis as they were. -/
theorem scanFile_ends (declared : Declared config s.findings)
    (roster : s.roster = own response cohesion) (file : SourceFile) :
    (scanFile file).Ends s fun _ t =>
      Declared config t.findings ∧ t.roster = own response cohesion := by
  unfold scanFile
  cases file.result with
  | error e => exact .alter ⟨declared.record rfl, roster⟩
  | ok declarations =>
      refine .alter_bind ?_
      let invariant (t : Session σ) : Prop :=
        Declared config t.findings ∧ t.roster = own response cohesion
      have round (d : Declaration) (t : Session σ) (holds : invariant t) :
          (applyDeclaration d).Ends t fun _ u => invariant u :=
        applyDeclaration_ends holds.1 holds.2 d
      refine (Ends.forM declarations ⟨declared.say _ _, roster⟩ round).bind ?_
      rintro - t ⟨declared, roster⟩
      refine .alter ⟨?_, roster⟩
      exact declared.of_same rfl rfl rfl rfl (List.append_nil _).symm (List.forall_mem_nil _)

/-- The source scan ends, whatever is declared.  What could stop it are external visitors, and there
are none. -/
theorem run_ends (declared : Declared config s.findings)
    (roster : s.roster = own response cohesion) (files : List SourceFile) :
    (SourceScan.run files).Ends s fun _ t =>
      Declared config t.findings ∧ t.roster = own response cohesion := by
  let invariant (t : Session σ) : Prop :=
    Declared config t.findings ∧ t.roster = own response cohesion
  have round (file : SourceFile) (t : Session σ) (holds : invariant t) :
      (scanFile file).Ends t fun _ u => invariant u :=
    scanFile_ends holds.1 holds.2 file
  unfold SourceScan.run
  refine .alter_bind ?_
  refine (Ends.forM files ⟨declared.say _ _, roster⟩ round).bind ?_
  rintro - t ⟨declared, roster⟩
  refine (dispatch_silent roster (.inr rfl)).bind ?_
  rintro - u rfl
  exact .alter ⟨declared.say _ _, roster⟩

/-- Without source files nothing is declared. -/
theorem run_nil_ends (roster : s.roster = own response cohesion) :
    (SourceScan.run []).Ends s fun _ t =>
      t.findings.index = s.findings.index ∧ t.findings.report = s.findings.report := by
  have skipped (t : Session σ) : (List.forM [] scanFile).Ends t fun _ u => u = t := .pure rfl
  unfold SourceScan.run
  refine .alter_bind ?_
  refine (skipped _).bind ?_
  rintro - t rfl
  refine Ends.bind (dispatch_silent roster (.inr rfl)) ?_
  rintro - u rfl
  exact .alter ⟨rfl, rfl⟩

end Files

end SourceScan

/-! ## Both scans -/

/-- Findings with nothing but declarations follow the outline that has done them.  This is where the
bytecode scan starts from, after the source scan. -/
theorem BytecodeScan.Following.of_declared {config : Config} {s : Session σ}
    (declared : SourceScan.Declared config s.findings) (own : Private s) :
    Following s.findings.owningProject s.findings
      { deeds := s.findings.index.declarations.map .declare } {} s where
  steady := declared.steady
  own := own
  config := rfl
  tracks := by
    refine .inr ⟨declared.undisputed, ?_, ?_, rfl⟩
    · have same : (s.findings.index.declarations.map Deed.declare).map Deed.declaration =
          s.findings.index.declarations := by
        rw [List.map_map]
        exact List.map_id _
      rw [same]
      exact .self declared.sound
    · rw [counted_declare, declared.graph]
      rfl
  followed _ :=
    { issues := (List.append_nil _).symm
      enlisted := .empty _
      sites := .empty _
      heirs := by
        rw [declared.superclasses]
        exact .empty _
      visits := .empty _ _ }

namespace Analysis

/-- Both scans end, and the second one follows its outline from what the first one declared.  No
external visitor is there to stop them. -/
theorem scans_follow (config : Config) (sources : List SourceFile) (artifacts : List Artifact) :
    (SourceScan.run sources >>= fun _ => BytecodeScan.run artifacts).Ends
        (start config ([] : List (External σ × Subscription))) fun _ t =>
      ∃ (declared : Findings) (progress : BytecodeScan.Progress),
        SourceScan.Declared config declared ∧
        (sources = [] → declared.index = {} ∧ declared.report = {}) ∧
        BytecodeScan.Following declared.owningProject declared
          (Outline.scan declared.owningProject
            { deeds := declared.index.declarations.map .declare } artifacts) progress t := by
  have initial : SourceScan.Declared config
      (start config ([] : List (External σ × Subscription))).findings := .initial config
  have scanned := SourceScan.run_ends initial rfl sources
  have nothing : (SourceScan.run sources).Ends
      (start config ([] : List (External σ × Subscription))) fun _ t =>
        sources = [] → t.findings.index = {} ∧ t.findings.report = {} := by
    by_cases none : sources = []
    · subst none
      refine (SourceScan.run_nil_ends rfl).mono ?_
      rintro - t ⟨index, report⟩ -
      exact ⟨index, report⟩
    · refine scanned.mono ?_
      rintro - t - impossible
      exact absurd impossible none
  refine (scanned.and nothing).bind ?_
  rintro - t ⟨⟨declared, roster⟩, empty⟩
  have own : Private t := ⟨_, _, roster, congrArg Config.excludedFields declared.config.symm⟩
  refine ((BytecodeScan.Following.of_declared declared own).run artifacts).mono ?_
  rintro - u ⟨progress, following⟩
  exact ⟨t.findings, progress, declared, empty, following⟩

end Analysis

end CodeMetrics
