import CodeMetrics.Proofs.Scan.Callbacks
import CodeMetrics.Proofs.Scan.Finish
import CodeMetrics.Proofs.Scan.Operations

/-!
# Runs with any visitors

What holds all along a run, whoever listens to it: the model has come about by allowed changes, the
roster is the one of the start, and every call went to a subscriber (`Session.Sane`).  A run is
stopped by a visitor or by nothing.

As long as no visitor has recorded a superclass, the recorded superclasses are those of the classes
that were applied, and each of them that is not the class itself has its extension in the graph
(`Findings.Lineage`).  Every type is opened once, so that its extension is counted once.
-/

namespace CodeMetrics

open Scanning

variable {σ : Type}

/-! ## Superclasses and extensions -/

namespace Findings

variable {f f' : Findings} {types : List Handle} {type : Handle} {above : Option Handle}

/-- The superclasses are recorded for `types`, and the extensions are the ones they call for. -/
structure Lineage (types : List Handle) (f : Findings) : Prop where
  recorded : ∀ h, f.superclasses.contains h = true ↔ h ∈ types
  extension_iff : ∀ e, e ∈ f.graph.extensions ↔
    e.kind = .extension ∧ e.usage = 1 ∧ f.superclass? e.source = some e.target ∧
      e.target ≠ e.source

namespace Lineage

/-- At the start there are neither superclasses nor extensions. -/
theorem initial (config : Config) : Lineage [] { config := config } where
  recorded h := by simp
  extension_iff e := by simp [Graph.extensions, superclass?]

/-- Only superclasses and extensions matter. -/
theorem congr (lineage : f.Lineage types) (superclasses : f'.superclasses = f.superclasses)
    (extensions : f'.graph.extensions = f.graph.extensions) : f'.Lineage types where
  recorded h := by
    rw [superclasses]
    exact lineage.recorded h
  extension_iff e := by
    rw [extensions, superclass?, superclasses]
    exact lineage.extension_iff e

/-- A type without a record has no extension. -/
theorem source_ne (lineage : f.Lineage types) (new : type ∉ types) :
    ∀ e ∈ f.graph.extensions, e.source ≠ type := by
  intro e listed same
  obtain ⟨-, -, above, -⟩ := (lineage.extension_iff e).mp listed
  have missing : f.superclasses[e.source]? = none := by
    refine Std.ExtTreeMap.getElem?_eq_none_of_contains_eq_false ?_
    rw [← Bool.not_eq_true, lineage.recorded, same]
    exact new
  rw [superclass?, missing] at above
  cases above

/-- Recording a superclass changes that of one type only. -/
theorem superclass?_insert (superclasses : f'.superclasses = f.superclasses.insert type above)
    (h : Handle) : f'.superclass? h = if h = type then above else f.superclass? h := by
  rw [superclass?, superclasses, Std.ExtTreeMap.getElem?_insert]
  by_cases same : h = type
  · rw [if_pos same, if_pos (Std.LawfulEqOrd.compare_eq_iff_eq.mpr same.symm)]
    rfl
  · rw [if_neg same, if_neg fun equal => same (Std.LawfulEqOrd.compare_eq_iff_eq.mp equal).symm]
    rfl

/-- The superclass of one more type is recorded.  Its extension comes last among the edges, and
there is none if the type is a root or its own superclass. -/
theorem inherits (lineage : f.Lineage types) (new : type ∉ types)
    (inherits : f.Inherits type above f') : f'.Lineage (type :: types) where
  recorded h := by
    rw [inherits.superclasses, Std.ExtTreeMap.contains_insert, Bool.or_eq_true, List.mem_cons,
      lineage.recorded, beq_iff_eq, Std.LawfulEqOrd.compare_eq_iff_eq, eq_comm]
  extension_iff e := by
    have old := lineage.source_ne new
    rw [inherits.extensions old, List.mem_append, mem_extensionOf_iff,
      superclass?_insert inherits.superclasses]
    constructor
    · rintro (listed | ⟨rfl, kind, usage, is, other⟩)
      · rw [if_neg (old e listed)]
        exact (lineage.extension_iff e).mp listed
      · rw [if_pos rfl]
        exact ⟨kind, usage, is, other⟩
    · rintro ⟨kind, usage, is, other⟩
      by_cases same : e.source = type
      · rw [if_pos same] at is
        exact .inr ⟨same, kind, usage, is, same ▸ other⟩
      · rw [if_neg same] at is
        exact .inl ((lineage.extension_iff e).mpr ⟨kind, usage, is, other⟩)

end Lineage

end Findings

/-! ## Sessions under way -/

namespace Session

variable {badges : List Badge} {types : List Handle} {s t : Session σ} {f : Findings}

/-- No visitor has recorded a superclass so far. -/
def Silent (s : Session σ) : Prop :=
  ∀ call ∈ s.transcript.toList, ∀ effect ∈ call.reaction.effects, effect.recordsSuperclass = false

/-- The roster is the one of the start, the model has a history of allowed changes, and every call
went to a subscriber. -/
structure Sane (badges : List Badge) (s : Session σ) : Prop where
  roster : s.roster.badges = badges
  evolves : ({} : Model).Evolves s.findings.toModel
  proper : ∀ call ∈ s.transcript.toList, call.Proper badges

/-- Besides, no visitor has failed, and the superclasses of `types` have their extensions. -/
structure Underway (badges : List Badge) (types : List Handle) (s : Session σ) : Prop
    extends Sane badges s where
  flawless : ∀ call ∈ s.transcript.toList, call.reaction.failure = none
  lineage : s.Silent → s.findings.Lineage types

/-- How a run is stopped. -/
def Stopped (badges : List Badge) (e : RunError) (s : Session σ) : Prop :=
  Sane badges s ∧ Blames badges e s

namespace Sane

/-- The model of a sane session is sound, since it has evolved from an empty one. -/
theorem sound (sane : Sane badges s) : s.findings.toModel.Sound := sane.evolves.sound .empty

/-- A change of the findings by allowed changes of the model keeps a session sane. -/
theorem alter (sane : Sane badges s) (evolves : s.findings.toModel.Evolves f.toModel) :
    Sane badges { s with findings := f } where
  roster := sane.roster
  evolves := sane.evolves.trans evolves
  proper := sane.proper

/-- Calls keep a session sane, whatever visitors answer. -/
theorem hears (sane : Sane badges s) {calls : List Callback} (hears : Hears calls s t) :
    Sane badges t where
  roster := hears.badges.trans sane.roster
  evolves := sane.evolves.trans hears.evolves
  proper call listed := by
    rw [hears.transcript, List.mem_append] at listed
    rcases listed with early | late
    · exact sane.proper call early
    · rw [← sane.roster]
      exact hears.proper call late

/-- A session in which a visitor has failed is stopped, and blames this visitor. -/
theorem broken (sane : Sane badges s) {e : RunError} (broken : Broken s e t) :
    Stopped badges e t := by
  obtain ⟨calls, u, message, hears, rfl, blames⟩ := broken
  rw [sane.roster] at blames
  exact ⟨(sane.hears hears).alter (.of_alike ⟨rfl, rfl⟩), blames⟩

/-- Visitors are told of an event. -/
theorem dispatch (sane : Sane badges s) {e : Event}
    (known : ∀ visit, e = .leaveType visit → s.findings.index.Knows visit.element) :
    (dispatch e).Runs s (fun _ t => Heard s () t) (Stopped badges) :=
  (dispatch_runs e known).mono (fun _ _ heard => heard) fun _ _ broken => sane.broken broken

end Sane

namespace Underway

/-- The scan changes the findings, and no superclass or extension is concerned. -/
theorem alter (underway : Underway badges types s)
    (evolves : s.findings.toModel.Evolves f.toModel)
    (superclasses : f.superclasses = s.findings.superclasses)
    (extensions : f.graph.extensions = s.findings.graph.extensions) :
    Underway badges types { s with findings := f } where
  toSane := underway.toSane.alter evolves
  flawless := underway.flawless
  lineage silent := (underway.lineage silent).congr superclasses extensions

/-- What keeps the extensions and superclasses leaves the session under way. -/
theorem keeps (underway : Underway badges types s) (keeps : s.findings.Keeps f) :
    Underway badges types { s with findings := f } :=
  underway.alter keeps.evolves keeps.superclasses keeps.extensions

/-- An issue is recorded after something that concerns no superclass. -/
theorem record (underway : Underway badges types s) (keeps : s.findings.Keeps f) (i : Issue) :
    Underway badges types { s with findings := f.record i } :=
  underway.alter (keeps.evolves.trans (.of_alike ⟨rfl, rfl⟩)) keeps.superclasses keeps.extensions

/-- Visitors are told of an event, and none of them fails. -/
theorem heard (underway : Underway badges types s) (heard : Heard s () t) :
    Underway badges types t := by
  obtain ⟨calls, hears, quiet⟩ := heard
  refine ⟨underway.toSane.hears hears, fun call listed => ?_, fun silent => ?_⟩
  · rw [hears.transcript, List.mem_append] at listed
    exact listed.elim (underway.flawless call) (quiet call)
  · unfold Silent at silent
    rw [hears.transcript, List.forall_mem_append] at silent
    have remeasures := hears.remeasures silent.2
    refine (underway.lineage silent.1).congr remeasures.superclasses ?_
    rw [remeasures.graph]

end Underway

/-- A class is open. -/
structure Opened (badges : List Badge) (types : List Handle) (c : ClassFacts) (type : Handle)
    (s : Session σ) : Prop extends Underway badges (type :: types) s where
  isType : s.findings.index.IsType type c.key

namespace Opened

variable {c : ClassFacts} {type : Handle}

/-- What keeps the extensions and superclasses leaves the class open. -/
theorem keeps (opened : Opened badges types c type s) (keeps : s.findings.Keeps f) :
    Opened badges types c type { s with findings := f } where
  toUnderway := opened.toUnderway.keeps keeps
  isType := opened.isType.grows (keeps.evolves.grows opened.sound)

theorem heard (opened : Opened badges types c type s) (heard : Heard s () t) :
    Opened badges types c type t where
  toUnderway := opened.toUnderway.heard heard
  isType := by
    obtain ⟨calls, hears, -⟩ := heard
    exact opened.isType.grows hears.grows

/-- A class that is new is opened, with a type that no earlier class had. -/
theorem enter (underway : Underway badges types s)
    (resolved : s.findings.resolveType c.key = (.ok type, f)) (new : type ∉ types) :
    Opened badges types c type { s with findings := f.openClass c type } := by
  have tacit := s.findings.resolveType_tacit c.key
  rw [resolved] at tacit
  have sound := tacit.evolves.sound underway.sound
  have isType := Findings.isType_of_resolveType underway.sound resolved
  have entered := Findings.entered_evolves isType
  obtain ⟨enriches, above, inherits⟩ := Findings.openClass_inherits sound isType
  have evolves := entered.trans enriches.evolves
  refine ⟨⟨underway.toSane.alter (tacit.evolves.trans evolves), underway.flawless, ?_⟩, ?_⟩
  · intro silent
    have before : (f.entered type).Lineage types :=
      (underway.lineage silent).congr tacit.superclasses
        ((f.graph.extensions_addVertex type).trans tacit.extensions)
    exact before.inherits new inherits
  · exact isType.grows (evolves.grows sound)

end Opened

end Session

/-! ## Both scans -/

open Session

variable {badges : List Badge} {s : Session σ}

/-- Every step of the source scan leaves the session under way. -/
theorem SourceScan.steps_underway (badges : List Badge) :
    Steps (fun _ (s : Session σ) => Underway badges [] s) (Stopped badges) where
  coherent underway := underway.sound.index.toCoherent
  say level message underway := underway.keeps (.say _ level message)
  skip path message underway := underway.record (.refl _) (.parseFailed path message)
  declare d underway :=
    underway.keeps (Findings.declareFact_keeps underway.sound.index.toCoherent fun _ => rfl)
  tell _ staying _ underway := by
    refine (underway.dispatch ?_).mono (fun _ _ heard => underway.heard heard)
      fun _ _ stopped => stopped
    rintro visit rfl
    exact absurd rfl staying
  count underway := underway.alter (.of_alike ⟨rfl, rfl⟩) rfl rfl

/-- Every step of the bytecode scan leaves the session under way, and a class that is entered stays
open until it is left. -/
theorem BytecodeScan.steps_underway (badges : List Badge) :
    Steps (fun _ _ types (s : Session σ) => Underway badges types s)
      (fun _ _ types c type s => Opened badges types c type s) (Stopped badges) where
  coherent opened := opened.sound.index.toCoherent
  say level message underway := underway.keeps (.say _ level message)
  fail path message kept underway := underway.record (.refl _) (.decodeFailed path message kept)
  refuse {_ _ _ s c e f} underway resolved := by
    have tacit := s.findings.resolveType_tacit c.key
    rw [resolved] at tacit
    exact underway.record tacit.toKeeps _
  again {_ _ _ s c type f} path underway resolved _ := by
    have tacit := s.findings.resolveType_tacit c.key
    rw [resolved] at tacit
    exact underway.record tacit.toKeeps _
  enter underway resolved new := by
    have opened := Opened.enter underway resolved new
    exact (opened.dispatch (by rintro visit ⟨⟩)).mono (fun _ _ heard => opened.heard heard)
      fun _ _ stopped => stopped
  declare _ opened :=
    opened.keeps (Findings.declareMember_keeps opened.sound _ (.inr rfl) _)
  tell inside _ opened := by
    refine (opened.dispatch ?_).mono (fun _ _ heard => opened.heard heard)
      fun _ _ stopped => stopped
    rintro visit rfl
    cases inside
  refer r opened := opened.keeps (Findings.addReference_keeps opened.sound _ r)
  leave opened := by
    refine (opened.dispatch ?_).mono (fun _ _ heard => opened.toUnderway.heard heard)
      fun _ _ stopped => stopped
    rintro visit ⟨⟩
    exact .of_key? opened.isType.1
  close underway :=
    (underway.dispatch (by rintro visit ⟨⟩)).mono (fun _ _ heard => underway.heard heard)
      fun _ _ stopped => stopped

/-! ## Whole runs -/

namespace Analysis

/-- A run starts with a session under way: an empty model, and nobody called yet. -/
theorem start_underway (config : Config) (visitors : List (External σ × Subscription)) :
    Underway (start config visitors).roster.badges [] (start config visitors) where
  roster := rfl
  evolves := .of_alike ⟨rfl, rfl⟩
  proper := List.forall_mem_nil _
  flawless := List.forall_mem_nil _
  lineage _ := .initial config

/-- The scans ended with the session `s`; the last metrics led to `t`. -/
structure Finished (badges : List Badge) (types : List Handle) (s t : Session σ) : Prop where
  underway : Underway badges types s
  closes : Closes s.findings t.findings
  transcript : t.transcript = s.transcript
  sane : Sane badges t

/-- The last metrics can always be computed.  They change measures, and make all types vertices. -/
theorem finish_runs {types : List Handle} (underway : Underway badges types s) :
    (finish : Scanning σ Unit).Ends s fun _ t => Finished badges types s t := by
  obtain ⟨f, run, closes⟩ := measure_closes (Findings.steady_of_sound underway.sound)
  unfold finish
  refine .findings_bind ?_
  rw [run]
  have closed := closes.say .info (closing f)
  have added : s.findings.toModel.Evolves (s.findings.withModel s.findings.toModel.addTypes).toModel :=
    .single .addTypes rfl ⟨rfl, rfl⟩
  exact .alter ⟨underway, closed, rfl, underway.toSane.alter (added.trans closed.evolves)⟩

/-- **Every run** ends after both scans and the last metrics, or was stopped by a visitor that is
not part of the analysis itself. -/
theorem scanning_runs (config : Config) (visitors : List (External σ × Subscription))
    (sources : List SourceFile) (artifacts : List Artifact) :
    (scanning sources artifacts).Runs (start config visitors)
      (fun _ t => ∃ types s, Finished (start config visitors).roster.badges types s t)
      (Stopped (start config visitors).roster.badges) := by
  have first := (SourceScan.steps_underway _).run sources (start_underway config visitors)
  unfold scanning
  refine first.bind fun _ s underway => ?_
  have second := (BytecodeScan.steps_underway _).run artifacts underway
  refine second.bind ?_
  rintro - t ⟨types, underway⟩
  refine .of_ends ((finish_runs underway).mono fun _ u finished => ?_)
  exact ⟨types, t, finished⟩

variable {config : Config} {visitors : List (External σ × Subscription)}
  {sources : List SourceFile} {artifacts : List Artifact}

/-- A run that gives an analysis has ended, with a session that has its findings. -/
theorem session_of_run {a : Analysis} (ran : run config visitors sources artifacts = .ok a) :
    ∃ t, (scanning sources artifacts).runOn (start config visitors) = (.ok (), t) ∧
      a.findings = t.findings := by
  have session : (scanning sources artifacts).runOn (start config visitors) =
    runSession config visitors sources artifacts := rfl
  rw [session]
  unfold run at ran
  generalize runSession config visitors sources artifacts = result at ran ⊢
  obtain ⟨e | done, t⟩ := result
  · cases ran
  · cases ran
    exact ⟨t, rfl, rfl⟩

/-- A run that gives an analysis has finished. -/
theorem finished_of_run {a : Analysis} (ran : run config visitors sources artifacts = .ok a) :
    ∃ types s, Finished (start config visitors).roster.badges types s
        (runSession config visitors sources artifacts).2 ∧
      a.findings = (runSession config visitors sources artifacts).2.findings := by
  obtain ⟨t, ended, same⟩ := session_of_run ran
  obtain ⟨types, s, finished⟩ := (scanning_runs config visitors sources artifacts).ok ended
  have session : runSession config visitors sources artifacts = (.ok (), t) := ended
  rw [session]
  exact ⟨types, s, finished, same⟩

/-- The badges at the start: those of the analysis itself come first. -/
theorem badges_start (config : Config) (visitors : List (External σ × Subscription)) :
    (start config visitors).roster.badges =
      (ownVisitors config : List (Subscriber σ)).map Subscriber.badge ++
        visitors.map fun v => ⟨false, v.1.name, v.1.interests, v.2⟩ := by
  show (ownVisitors config ++ visitors.map externalSubscriber).map Subscriber.badge = _
  rw [List.map_append, List.map_map]
  rfl

/-- The first slots are those of the visitors of the analysis itself. -/
theorem own_of_lt {slot : Nat} {badge : Badge}
    (early : slot < (ownVisitors config : List (Subscriber σ)).length)
    (found : (start config visitors).roster.badges[slot]? = some badge) : badge.own = true := by
  rw [badges_start, List.getElem?_append_left (by rw [List.length_map]; exact early)] at found
  have listed := List.mem_of_getElem? found
  rw [ownVisitors, List.map_cons, List.map_singleton, List.mem_pair] at listed
  rcases listed with rfl | rfl
  · rfl
  · rfl

/-- A subscriber that is not part of the analysis itself is one of the external visitors. -/
theorem external_of_foreign {slot : Nat} {badge : Badge}
    (found : (start config visitors).roster.badges[slot]? = some badge)
    (foreign : badge.own = false) :
    ∃ i v, visitors[i]? = some v ∧ slot = (ownVisitors config : List (Subscriber σ)).length + i ∧
      badge.name = v.1.name := by
  have late : (ownVisitors config : List (Subscriber σ)).length ≤ slot := by
    by_contra early
    have own := own_of_lt (Nat.lt_of_not_le early) found
    rw [foreign] at own
    cases own
  obtain ⟨i, rfl⟩ := Nat.exists_eq_add_of_le late
  rw [badges_start, List.getElem?_append_right (by rw [List.length_map]; exact late),
    List.length_map, Nat.add_sub_cancel_left, List.getElem?_map] at found
  obtain ⟨v, listed, rfl⟩ := Option.map_eq_some_iff.mp found
  exact ⟨i, v, listed, rfl, rfl⟩

/-- What stops a scan is the last answer of an external visitor, which has failed. -/
theorem blamed_of_stopped {error : RunError}
    (stopped : Stopped (start config visitors).roster.badges error s) :
    ∃ i v call reason, visitors[i]? = some v ∧ s.transcript.toList.getLast? = some call ∧
      call.slot = (ownVisitors config : List (Subscriber σ)).length + i ∧
      call.reaction.failure = some reason ∧
      error = .visitor v.1.name call.event.phase call.event.kind reason := by
  obtain ⟨-, call, badge, reason, last, found, foreign, failure, rfl⟩ := stopped
  obtain ⟨i, v, listed, slot, name⟩ := external_of_foreign found foreign
  exact ⟨i, v, call, reason, listed, last, slot, failure, by rw [name]⟩

/-- At the end of a run every type and every placeholder has the last measures. -/
theorem Finished.measuresOf_eq {badges : List Badge} {types : List Handle} {s t : Session σ}
    (finished : Finished badges types s t) {h : Handle}
    (level : t.findings.index.IsTypeLevel h) :
    t.findings.index.measuresOf h = closingMeasures t.findings.inheritance t.findings.graph h
      (s.findings.index.measuresOf h) := by
  have before : s.findings.index.IsTypeLevel h := by
    obtain ⟨kind, is, level⟩ := level
    rw [finished.closes.kinds] at is
    exact ⟨kind, is, level⟩
  have graph : t.findings.graph = s.findings.graph.addTypes s.findings.index :=
    finished.closes.graph
  have superclasses : t.findings.superclasses = s.findings.superclasses :=
    finished.closes.superclasses
  rw [finished.closes.stamped before, graph, Findings.inheritance, Findings.inheritance,
    superclasses]
  rfl

/-- The model of an analysis is sound. -/
theorem sound_of_run {a : Analysis} (ran : run config visitors sources artifacts = .ok a) :
    a.findings.toModel.Sound := by
  obtain ⟨types, s, finished, same⟩ := finished_of_run ran
  rw [same]
  exact finished.sane.sound

/-- At the end every type and placeholder has the last metrics, on top of whatever visitors have
attached before. -/
theorem measures_of_run {a : Analysis} (ran : run config visitors sources artifacts = .ok a)
    {h : Handle} (level : a.index.IsTypeLevel h) :
    ∃ m, a.index.measuresOf h = closingMeasures a.findings.inheritance a.graph h m := by
  obtain ⟨types, s, finished, same⟩ := finished_of_run ran
  unfold Analysis.index Analysis.graph at *
  rw [same] at level ⊢
  exact ⟨_, finished.measuresOf_eq level⟩

end Analysis

end CodeMetrics
