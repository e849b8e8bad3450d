import CodeMetrics.Proofs.Scan.Recounting
import CodeMetrics.Proofs.Scan.Sifting

/-!
# Classes that are decoded again

A class whose key was accepted before is passed over, whatever it holds.  It gets its own issue and
leaves no other trace: the run goes on as if the class were not there.

A run with such a class and the run without it are split at its place in the agenda.  Up to there
they are abreast.  Then the one has an issue more than the other, and from there on both reports get
the same (`Report.Grown`), but for the number of classes that a failing artifact gives.
-/

namespace CodeMetrics

open BytecodeScan (Progress Recounts)
open Scanning Session

variable {σ : Type}

/-! ## Reports that get the same -/

namespace Report

/-- The counts are the same, and each report has got the same issues since it had those of its
base. -/
structure Grown (base base' : List Issue) (r r' : Report) : Prop where
  files : r'.filesScanned = r.filesScanned
  classes : r'.classesScanned = r.classesScanned
  issues : ∃ more, r.issues.toList = base ++ more ∧ r'.issues.toList = base' ++ more

theorem lasting_grown (base base' : List Issue) :
    Report.Lasting (fun _ => True) (Grown base base') where
  record := fun {r r' i} _ grown => by
    obtain ⟨files, classes, more, issues, issues'⟩ := grown
    refine ⟨files, classes, more ++ [i], ?_, ?_⟩
    · rw [record, Array.toList_push, issues, List.append_assoc]
    · rw [record, Array.toList_push, issues', List.append_assoc]
  files grown := ⟨congrArg (· + 1) grown.files, grown.classes, grown.issues⟩
  classes grown := ⟨grown.files, congrArg (· + 1) grown.classes, grown.issues⟩

end Report

/-- An artifact that fails or does not. -/
theorem Item.runOn_failure? (i : Option Issue) (progress : Progress) (s : Session σ) :
    ((i.map Item.failure).toList.foldlM Item.carryOut progress).runOn s =
      (.ok progress, { s with findings := i.toList.foldl Findings.record s.findings }) := by
  cases i <;> rfl

theorem Findings.issues_foldl_record (f : Findings) (i : Option Issue) :
    (i.toList.foldl record f).report.issues.toList = f.report.issues.toList ++ i.toList := by
  cases i with
  | none => exact (List.append_nil _).symm
  | some i => exact Array.toList_push

/-- Sessions abreast stay abreast when each of them records an issue of its own, and their reports
differ by these issues. -/
theorem Session.Abreast.failures {base base' : List Issue} {s t : Session σ}
    (abreast : s.Abreast (Report.Grown base base') t) (i j : Option Issue) :
    ∃ more, ({ s with findings := i.toList.foldl Findings.record s.findings } : Session σ).Abreast
      (Report.Grown (base ++ (more ++ i.toList)) (base' ++ (more ++ j.toList)))
      { t with findings := j.toList.foldl Findings.record t.findings } := by
  obtain ⟨⟨model, config, superclasses, files, classes, more, issues, issues'⟩, roster, own⟩ :=
    abreast
  have grown : Report.Grown (base ++ (more ++ i.toList)) (base' ++ (more ++ j.toList))
      (i.toList.foldl Findings.record s.findings).report
      (j.toList.foldl Findings.record t.findings).report := by
    refine ⟨?_, ?_, [], ?_, ?_⟩
    · cases i <;> cases j <;> exact files
    · cases i <;> cases j <;> exact classes
    · rw [Findings.issues_foldl_record, issues, List.append_nil, List.append_assoc]
    · rw [Findings.issues_foldl_record, issues', List.append_nil, List.append_assoc]
  refine ⟨more, ?_⟩
  cases i <;> cases j <;>
    exact ⟨⟨⟨model.index, model.graph⟩, config, superclasses, grown⟩, roster, own⟩

namespace Analysis

/-- Two runs go on with the same items, except that an artifact may fail in its own way.  At the end
their findings agree, but for the report. -/
theorem agrees_of_remaining {base base' : List Issue} {s t : Session σ}
    (abreast : s.Abreast (Report.Grown base base') t) (progress : Progress) (late rest : List Item)
    (i j : Option Issue)
    (ended : ((remaining (late ++ ((i.map Item.failure).toList ++ rest)) progress).runOn s).1 =
      .ok ())
    (ended' : ((remaining (late ++ ((j.map Item.failure).toList ++ rest)) progress).runOn t).1 =
      .ok ()) :
    ∃ more,
      ((remaining (late ++ ((i.map Item.failure).toList ++ rest)) progress).runOn s).2.findings.Agrees
        (Report.Grown (base ++ (more ++ i.toList)) (base' ++ (more ++ j.toList)))
        ((remaining (late ++ ((j.map Item.failure).toList ++ rest)) progress).runOn t).2.findings := by
  rw [remaining_append] at ended ended' ⊢
  rw [remaining_append]
  obtain ⟨progress₁, s₁, run, whole⟩ := exists_of_bind_ok ended
  obtain ⟨progress₁', t₁, run', whole'⟩ := exists_of_bind_ok ended'
  have joined := (Made.items late progress).parallel (Report.lasting_grown base base')
    (fun _ _ => trivial) s t abreast
  rw [run, run'] at joined
  obtain ⟨same, abreast₁⟩ := joined
  cases same
  obtain ⟨more, abreast₂⟩ := abreast₁.failures i j
  have joined₂ := (made_remaining rest progress₁).parallel (Report.lasting_grown _ _)
    (fun _ _ => trivial) _ _ abreast₂
  rw [whole, whole', remaining_append, remaining_append,
    runOn_bind_of_ok (Item.runOn_failure? i progress₁ s₁),
    runOn_bind_of_ok (Item.runOn_failure? j progress₁ t₁)]
  exact ⟨more, joined₂.2.findings⟩

end Analysis

/-! ## A class that is decoded again -/

/-- The type of a class that is known as a type is found where it is. -/
theorem Findings.resolveType_of_isType {f : Findings} {key : String} {h : Handle}
    (coherent : f.index.Coherent) (type : f.index.IsType h key) :
    f.resolveType key = (.ok h, f) := by
  obtain ⟨e, found⟩ := Index.knows_iff_get?.mp (.of_key? type.1)
  obtain rfl := coherent.handle_eq found
  obtain ⟨named, is⟩ := type
  rw [Index.key?_of_get? found, Option.some.injEq] at named
  rw [Index.kind?_of_get? found, Option.some.injEq] at is
  rw [resolveType, coherent.find?_eq_some_iff.mpr ⟨found, named⟩]
  simp only [is]

/-- A class whose type was scanned before gets an issue and nothing else. -/
theorem Item.runOn_again {s : Session σ} {progress : Progress} {c : ClassFacts} {h : Handle}
    (coherent : s.findings.index.Coherent) (type : s.findings.index.IsType h c.key)
    (scanned : h ∈ progress.types) (path : String) :
    ((Item.decoded path c).carryOut progress).runOn s =
      (.ok progress, { s with findings := s.findings.record (.duplicateClass path c.key) }) := by
  have resolved := Findings.resolveType_of_isType coherent type
  have first := runOn_edit (s := s) (·.resolveType c.key)
  rw [resolved] at first
  unfold Item.carryOut BytecodeScan.scanClass
  rw [runOn_bind_of_ok first]
  dsimp only
  rw [if_pos scanned]
  exact runOn_bind_of_ok (runOn_alter _)

namespace Analysis

variable {config : Config} {sources : List SourceFile} {cs : List ClassFacts}
  {progress : Progress} {s₀ s : Session σ}

/-- What a run has met when it is in the middle of the artifacts: the classes that were decoded up
to there, and the types of those that were accepted. -/
theorem recounts_of_front {visitors : List (External σ × Subscription)} {items : List Item}
    (ofArtifact : ∀ item ∈ items, item.isOfArtifact = true)
    (run : ((SourceScan.agenda sources ++ items).foldlM Item.carryOut {}).runOn
      (start config visitors) = (.ok progress, s)) :
    ∃ s₀, Recounts (start config visitors).roster.badges s₀ (items.filterMap Item.class?)
      progress s := by
  have source := (SourceScan.steps_underway _).run sources (start_underway config visitors)
  have runs : ((SourceScan.agenda sources ++ items).foldlM Item.carryOut {}).Runs
      (start config visitors)
      (fun progress t => ∃ s₀, Recounts (start config visitors).roster.badges s₀
        (items.filterMap Item.class?) progress t)
      (Stopped (start config visitors).roster.badges) := by
    rw [List.foldlM_append, ← SourceScan.run_eq, bind_assoc]
    refine source.bind fun _ t underway => ?_
    rw [pure_bind]
    refine ((Recounts.start underway).carryOut_all ofArtifact).mono ?_ fun _ _ stopped => stopped
    rintro progress u ⟨recounts, -⟩
    exact ⟨t, recounts⟩
  exact runs.ok run

/-- From the middle of the artifacts to the end of the run the findings advance. -/
theorem advances_to_end {badges : List Badge} (recounts : Recounts badges s₀ cs progress s)
    {items : List Item} (ofArtifact : ∀ item ∈ items, item.isOfArtifact = true)
    (ended : ((remaining (items ++ BytecodeScan.ending) progress).runOn s).1 = .ok ()) :
    s.findings.Advances
      ((remaining (items ++ BytecodeScan.ending) progress).runOn s).2.findings := by
  have runs : (remaining (items ++ BytecodeScan.ending) progress).Runs s
      (fun _ v => s.findings.Advances v.findings) (Stopped badges) := by
    rw [remaining_append]
    refine (recounts.carryOut_all ofArtifact).bind ?_
    rintro progress t ⟨recounts, advances⟩
    refine recounts.close.bind ?_
    rintro progress u ⟨underway, proceeds⟩
    refine .of_ends ((finish_runs underway).mono fun _ v finished => ?_)
    exact (advances.trans proceeds.advances).trans
      (advances_of_closes underway.sound finished.closes)
  exact runs.ok (Prod.ext ended rfl)

end Analysis

/-! ## The place of the class -/

namespace Analysis

/-- The items of the bytecode scan until some classes of an artifact. -/
def itemsUntil (before : List Artifact) (x : Artifact) (after : List Artifact)
    (early : List ClassFacts) : List Item :=
  BytecodeScan.opening (before ++ x :: after) ::
    (before.flatMap Artifact.agenda ++ (x.opening ++ early.map (.decoded x.path)))

/-- The items of a run after some classes of an artifact. -/
def itemsFrom (x : Artifact) (late : List ClassFacts) (after : List Artifact) : List Item :=
  late.map (.decoded x.path) ++
    ((x.failure?.map Item.failure).toList ++
      (after.flatMap Artifact.agenda ++ BytecodeScan.ending))

section Split

variable {config : Config} {sources : List SourceFile} {before after : List Artifact} {x : Artifact}
  {early late : List ClassFacts} {progress : Progress} {s : Session σ}

/-- A run is split after some classes of an artifact. -/
theorem agenda_split (sources : List SourceFile) (classes : x.classes = early ++ late) :
    agenda sources (before ++ x :: after) =
      (SourceScan.agenda sources ++ itemsUntil before x after early) ++
        itemsFrom x late after := by
  simp only [agenda, BytecodeScan.agenda, itemsUntil, itemsFrom, List.flatMap_append, List.flatMap_cons,
    Artifact.agenda, classes, List.map_append, List.cons_append, List.append_assoc]
  rfl

theorem isOfArtifact_of_mem_itemsUntil {item : Item}
    (listed : item ∈ itemsUntil before x after early) : item.isOfArtifact = true := by
  rcases List.mem_cons.mp listed with rfl | listed
  · rfl
  rcases List.mem_append.mp listed with earlier | listed
  · exact Artifact.isOfArtifact_of_mem_agendas earlier
  rcases List.mem_append.mp listed with first | listed
  · exact (Artifact.isOfArtifact_of_mem_opening first).1
  · obtain ⟨c, -, rfl⟩ := List.mem_map.mp listed
    rfl

theorem filterMap_class?_itemsUntil :
    (itemsUntil before x after early).filterMap Item.class? =
      before.flatMap Artifact.classes ++ early := by
  rw [itemsUntil, List.filterMap_cons_none rfl, List.filterMap_append,
    Artifact.filterMap_class?_agendas, List.filterMap_append, Artifact.filterMap_class?_opening,
    Artifact.filterMap_class?_decoded, List.nil_append]

theorem filter_itemsUntil :
    (itemsUntil before x after early).filter (!·.isMessage) =
      (before.flatMap Artifact.agenda ++ early.map (Item.decoded x.path)).filter
        (!·.isMessage) := by
  have opening : x.opening.filter (!·.isMessage) = [] := by
    unfold Artifact.opening
    cases x.error <;> rfl
  rw [itemsUntil, List.filter_cons_of_neg (by exact Bool.false_ne_true), List.filter_append,
    List.filter_append, opening, List.filter_append, List.nil_append]

/-- If the key of a class is a type in the end, the type was scanned with the first class of this
key.  A class that is refused once is refused for good, and its key would be no type. -/
theorem scanned_of_accepted {key : String}
    (run : ((SourceScan.agenda sources ++ itemsUntil before x after early).foldlM Item.carryOut
      {}).runOn (start config []) = (.ok progress, s))
    (ended : ((remaining (itemsFrom x late after) progress).runOn s).1 = .ok ())
    (decoded : key ∈ (before.flatMap Artifact.classes ++ early).map ClassFacts.key)
    (typed : ((remaining (itemsFrom x late after) progress).runOn s).2.findings.index.Has key
      .type) :
    ∃ h ∈ progress.types, s.findings.index.IsType h key := by
  obtain ⟨s₀, recounts⟩ := recounts_of_front (fun _ => isOfArtifact_of_mem_itemsUntil) run
  rw [filterMap_class?_itemsUntil] at recounts
  obtain ⟨c, listed, rfl⟩ := List.mem_map.mp decoded
  refine (recounts.settles.settled listed).resolve_right fun bars => ?_
  have split : itemsFrom x late after =
      (late.map (.decoded x.path) ++ ((x.failure?.map Item.failure).toList ++
        after.flatMap Artifact.agenda)) ++ BytecodeScan.ending := by
    simp only [itemsFrom, List.append_assoc]
  rw [split] at ended typed
  refine ((advances_to_end recounts (fun item listed => ?_) ended).barred bars).untyped typed
  simp only [List.mem_append, List.mem_map, Option.mem_toList, Option.map_eq_some_iff] at listed
  rcases listed with ⟨c, -, rfl⟩ | ⟨i, -, rfl⟩ | later
  · rfl
  · rfl
  · exact Artifact.isOfArtifact_of_mem_agendas later

end Split

/-- A run with the class goes on as the run without it.  The class was met before, so all that it
does is to record that it is a duplicate; from there on the two runs are abreast. -/
theorem outcome_redecoded {before after : List Artifact} {x x' : Artifact}
    {early late : List ClassFacts} {c : ClassFacts} (config : Config) (sources : List SourceFile)
    (classes : x.classes = early ++ late) (classes' : x'.classes = early ++ c :: late)
    (path : x'.path = x.path)
    (decoded : c.key ∈ (before.flatMap Artifact.classes ++ early).map ClassFacts.key)
    (typed : (outcome config (agenda sources (before ++ x :: after)) :
      Except RunError Unit × Session σ).2.findings.index.Has c.key .type) :
    ∃ progress, ∃ s : Session σ, ∃ own,
      ((SourceScan.agenda sources ++ itemsUntil before x after early).foldlM Item.carryOut
        {}).runOn (start config []) = (.ok progress, s) ∧
      (outcome config (agenda sources (before ++ x :: after)) :
        Except RunError Unit × Session σ).2.findings.Agrees
        (Report.Grown (s.findings.report.issues.toList ++ (own ++ x.failure?.toList))
          (s.findings.report.issues.toList ++ [.duplicateClass x.path c.key] ++
            (own ++ x'.failure?.toList)))
        (outcome config (agenda sources (before ++ x' :: after)) :
          Except RunError Unit × Session σ).2.findings := by
  have ended := outcome_ok (σ := σ) config sources (before ++ x :: after)
  have ended' := outcome_ok (σ := σ) config sources (before ++ x' :: after)
  rw [agenda_split sources classes] at ended typed ⊢
  rw [agenda_split sources classes'] at ended' ⊢
  obtain ⟨progress, s, run, whole⟩ := exists_of_outcome_ok ended
  obtain ⟨progress', s', run', whole'⟩ := exists_of_outcome_ok ended'
  rw [whole] at ended typed ⊢
  rw [whole'] at ended' ⊢
  -- up to the class both runs are the same
  have same : (SourceScan.agenda sources ++ itemsUntil before x after early).filter
      (!·.isMessage) =
        (SourceScan.agenda sources ++ itemsUntil before x' after early).filter (!·.isMessage) := by
    rw [List.filter_append, List.filter_append, filter_itemsUntil, filter_itemsUntil, path]
  have always : Report.Lasting (fun _ => True) Eq := Report.lasting_eq
  have joined := Item.foldlM_messages always same (σ := σ) {} (start_abreast config rfl)
  rw [run, run'] at joined
  obtain ⟨equal, abreast⟩ := joined
  cases equal
  -- the class gets its issue
  obtain ⟨h, scanned, type⟩ := scanned_of_accepted run ended decoded typed
  obtain ⟨s₀, recounts⟩ := recounts_of_front (fun _ => isOfArtifact_of_mem_itemsUntil) run
  have coherent := recounts.underway.sound.index.toCoherent
  rw [abreast.findings.model.index] at type coherent
  have again : (remaining (itemsFrom x' (c :: late) after) progress).runOn s' =
      (remaining (itemsFrom x' late after) progress).runOn
        { s' with findings := s'.findings.record (.duplicateClass x'.path c.key) } :=
    (congrArg (·.runOn s') (remaining_cons _ _ progress)).trans
      (runOn_bind_of_ok (Item.runOn_again coherent type scanned x'.path))
  rw [again] at ended' ⊢
  unfold itemsFrom at ended ended' ⊢
  rw [path] at ended' ⊢
  -- from there on both get the same
  have apart : s.Abreast (Report.Grown s.findings.report.issues.toList
      (s.findings.report.issues.toList ++ [.duplicateClass x.path c.key]))
      { s' with findings := s'.findings.record (.duplicateClass x.path c.key) } := by
    have report := abreast.findings.report
    refine ⟨⟨⟨abreast.findings.model.index, abreast.findings.model.graph⟩, abreast.findings.config,
      abreast.findings.superclasses, ?_⟩, abreast.roster, abreast.own⟩
    rw [report]
    exact ⟨rfl, rfl, [], (List.append_nil _).symm,
      Array.toList_push.trans (List.append_nil _).symm⟩
  obtain ⟨own, agrees⟩ := agrees_of_remaining apart progress (late.map (.decoded x.path))
    (after.flatMap Artifact.agenda ++ BytecodeScan.ending) x.failure? x'.failure? ended ended'
  exact ⟨progress, s, own, run, agrees⟩

/-- **A class that is decoded again leaves no trace.**  Without external visitors, let a class of a
key be decoded and accepted, so that the key is a type in the end.  Any class of this key can then be
inserted at any later place: there is the same index with the same measures, the same graph, the same
superclasses and the same counts.  The issues are the same too, but for one more where the class was
met, and for the number of classes if its artifact fails. -/
theorem redecoded_class_leaves_no_trace (config : Config) (sources : List SourceFile)
    (before after : List Artifact) (path : String) (early late : List ClassFacts)
    (error : Option DecodeError) (c : ClassFacts) (a : Analysis)
    (ran : run config ([] : List (External σ × Subscription)) sources
      (before ++ ⟨path, early ++ late, error⟩ :: after) = .ok a)
    (decoded : c.key ∈ (before.flatMap Artifact.classes ++ early).map ClassFacts.key)
    (accepted : (a.find? c.key).map Element.kind = some .type) :
    ∃ b a₁ : Analysis, ∃ own later : List Issue,
      run config ([] : List (External σ × Subscription)) sources
        (before ++ ⟨path, early ++ c :: late, error⟩ :: after) = .ok b ∧
      b.index = a.index ∧ b.graph = a.graph ∧
      b.findings.superclasses = a.findings.superclasses ∧
      b.findings.report.filesScanned = a.findings.report.filesScanned ∧
      b.findings.report.classesScanned = a.findings.report.classesScanned ∧
      run config ([] : List (External σ × Subscription)) sources
        (before ++ [⟨path, early, none⟩]) = .ok a₁ ∧
      a.findings.report.issues.toList = a₁.findings.report.issues.toList ++
        (own ++ (Artifact.mk path (early ++ late) error).failure?.toList ++ later) ∧
      b.findings.report.issues.toList = a₁.findings.report.issues.toList ++
        .duplicateClass path c.key ::
          (own ++ (Artifact.mk path (early ++ c :: late) error).failure?.toList ++ later) := by
  obtain rfl := Except.ok.inj ((run_eq config sources _).symm.trans ran)
  have typed : (outcome config (agenda sources (before ++ ⟨path, early ++ late, error⟩ :: after)) :
      Except RunError Unit × Session σ).2.findings.index.Has c.key .type := by
    have sane := runSession_sane (σ := σ) config [] sources
      (before ++ ⟨path, early ++ late, error⟩ :: after)
    rw [runSession_eq] at sane
    exact Index.has_of_find? sane.sound.index.toCoherent accepted
  have classes : (Artifact.mk path (early ++ late) error).classes = early ++ late := rfl
  have classes' : (Artifact.mk path (early ++ c :: late) error).classes = early ++ c :: late := rfl
  have classes₁ : (Artifact.mk path early none).classes = early ++ [] := (List.append_nil _).symm
  obtain ⟨progress, s, own, run, agrees⟩ :=
    outcome_redecoded (σ := σ) config sources classes classes' rfl decoded typed
  obtain ⟨files, counts, later, issues, issues'⟩ := agrees.report
  -- the run that stops at the place of the class
  have ended₁ := outcome_ok (σ := σ) config sources (before ++ [⟨path, early, none⟩])
  rw [agenda_split sources classes₁] at ended₁
  have same : (SourceScan.agenda sources ++ itemsUntil before ⟨path, early, none⟩ [] early).filter
      (!·.isMessage) = (SourceScan.agenda sources ++
        itemsUntil before ⟨path, early ++ late, error⟩ after early).filter (!·.isMessage) := by
    rw [List.filter_append, List.filter_append, filter_itemsUntil, filter_itemsUntil]
  have quiet : ∀ item ∈ itemsFrom ⟨path, early, none⟩ [] [], item.isQuiet = true :=
    (by decide : ∀ item ∈ BytecodeScan.ending, item.isQuiet = true)
  have report := report_of_front run same quiet ended₁
  rw [← agenda_split sources classes₁] at report
  refine ⟨_, _, own, later, run_eq config sources _, agrees.model.index.symm,
    agrees.model.graph.symm, agrees.superclasses, files, counts, run_eq config sources _, ?_, ?_⟩
  · rw [issues, report, List.append_assoc]
  · rw [issues', report, List.append_assoc, List.append_assoc]
    rfl

/-! ### A class that returns in a failing artifact -/

/-- A class with a method that calls another class. -/
def caller (key callee : String) : ClassFacts :=
  { key := key, superclass := none, interfaces := [], fields := []
    methods := [⟨"m()V", [.call ⟨1, callee, "f()V"⟩]⟩] }

def wholeJar : Artifact := ⟨"one.jar", [caller "p/A" "p/B"], none⟩

theorem redecoded_class_leaves_no_trace_caller :
    ∃ a b a₁ : Analysis, ∃ own later : List Issue,
      run {} ([] : List (External Unit × Subscription)) [] ([wholeJar] ++
        [⟨"two.jar", [caller "p/B" "p/C"] ++ [caller "p/C" "p/A"],
          some (.malformed "truncated")⟩]) = .ok a ∧
      (a.find? "p/A").map Element.kind = some .type ∧
      run {} ([] : List (External Unit × Subscription)) [] ([wholeJar] ++
        [⟨"two.jar", [caller "p/B" "p/C"] ++ caller "p/A" "p/D" :: [caller "p/C" "p/A"],
          some (.malformed "truncated")⟩]) = .ok b ∧
      b.index = a.index ∧ b.graph = a.graph ∧
      b.findings.superclasses = a.findings.superclasses ∧
      b.findings.report.classesScanned = a.findings.report.classesScanned ∧
      a.findings.report.issues.toList = a₁.findings.report.issues.toList ++
        (own ++ [.decodeFailed "two.jar" (DecodeError.malformed "truncated").message 2] ++ later) ∧
      b.findings.report.issues.toList = a₁.findings.report.issues.toList ++
        .duplicateClass "two.jar" "p/A" :: (own ++
          [.decodeFailed "two.jar" (DecodeError.malformed "truncated").message 3] ++ later) := by
  obtain ⟨a, ran⟩ : ∃ a, run {} ([] : List (External Unit × Subscription)) [] ([wholeJar] ++
      [⟨"two.jar", [caller "p/B" "p/C"] ++ [caller "p/C" "p/A"],
        some (.malformed "truncated")⟩]) = .ok a := ⟨_, run_eq ..⟩
  have evaluated : (run {} ([] : List (External Unit × Subscription)) [] ([wholeJar] ++
      [⟨"two.jar", [caller "p/B" "p/C"] ++ [caller "p/C" "p/A"],
        some (.malformed "truncated")⟩])).toOption.map
      (fun a => (a.find? "p/A").map Element.kind) = some (some .type) := by
    decide +kernel
  rw [ran] at evaluated
  have accepted : (a.find? "p/A").map Element.kind = some .type := Option.some.inj evaluated
  obtain ⟨b, a₁, own, later, ran', index, graph, superclasses, -, classes, -, issues, issues'⟩ :=
    redecoded_class_leaves_no_trace {} [] [wholeJar] [] "two.jar" [caller "p/B" "p/C"]
      [caller "p/C" "p/A"] (some (.malformed "truncated")) (caller "p/A" "p/D") a ran (by decide)
      accepted
  exact ⟨a, b, a₁, own, later, ran, accepted, ran', index, graph, superclasses, classes, issues,
    issues'⟩

end Analysis

end CodeMetrics
