import CodeMetrics.Proofs.Scan.Finish
import CodeMetrics.Proofs.Scan.Operations

/-!
# What is measured, and what is accounted for

A run without external visitors, seen from its end.  The vertices of the graph are the types and the
placeholders, and all of them have the metrics that need the complete model.  The metrics that the
visitors compute belong to the classes that were applied, which are also those with a recorded
superclass.  Nothing else is measured.

The counters and the issues of the report are a balance of what was read: every source file was
scanned or skipped, and every decoded class was applied, met a second time or refused.

* `Report.Accounts` is the balance, `Findings.Covers` says which elements the classes have reached.
* `Session.Idle` holds between two classes and `Session.Busy` inside of one.
-/

namespace CodeMetrics

open Scanning

variable {σ : Type}

/-! ## The balance of the report -/

namespace Report

variable {files classes failures : Nat} {r : Report}

/-- The number of classes that had been applied before. -/
def duplicateClasses (r : Report) : Nat := r.issues.countP Issue.isDuplicateClass

/-- The number of classes that could not be placed. -/
def refusedClasses (r : Report) : Nat := r.issues.countP Issue.isRefusedClass

/-- The counters and the issues account for the files and classes that were read, and for the
artifacts that failed. -/
structure Accounts (files classes failures : Nat) (r : Report) : Prop where
  files : r.filesScanned + r.parseFailures = files
  classes : r.classesScanned + r.duplicateClasses + r.refusedClasses = classes
  failures : r.decodeFailures = failures

namespace Accounts

theorem initial : Accounts 0 0 0 {} := ⟨rfl, rfl, rfl⟩

theorem scanFile (accounts : r.Accounts files classes failures) :
    Accounts (files + 1) classes failures { r with filesScanned := r.filesScanned + 1 } where
  files := by
    rw [← accounts.files]
    exact Nat.add_right_comm _ _ _
  classes := accounts.classes
  failures := accounts.failures

/-- A class that was applied is one more in the report, and one more of those that were read. -/
theorem scanClass (accounts : r.Accounts files classes failures) :
    Accounts files (classes + 1) failures { r with classesScanned := r.classesScanned + 1 } where
  files := accounts.files
  classes := by
    rw [← accounts.classes]
    show r.classesScanned + 1 + r.duplicateClasses + r.refusedClasses = _
    omega
  failures := accounts.failures

/-- An issue adds to what it is about: a file, a class or an artifact, and most issues to none of
these. -/
theorem record (accounts : r.Accounts files classes failures) (i : Issue) :
    (r.record i).Accounts (files + if i.isParseFailure then 1 else 0)
      (classes + (if i.isDuplicateClass then 1 else 0) + if i.isRefusedClass then 1 else 0)
      (failures + if i.isDecodeFailure then 1 else 0) := by
  have pushed (test : Issue → Bool) : (r.record i).issues.countP test =
      r.issues.countP test + if test i then 1 else 0 := Array.countP_push
  refine ⟨?_, ?_, ?_⟩
  · rw [← accounts.files, parseFailures, parseFailures, pushed]
    exact (Nat.add_assoc ..).symm
  · rw [← accounts.classes, duplicateClasses, duplicateClasses, refusedClasses, refusedClasses,
      pushed, pushed]
    show r.classesScanned + _ + _ = _
    omega
  · rw [← accounts.failures, decodeFailures, decodeFailures, pushed]

/-- A class that was refused is accounted for by the issue that is recorded for it. -/
theorem refuse (accounts : r.Accounts files classes failures) {e : IndexError}
    (refuses : Findings.RefusesClass e) (key : String) :
    (r.record (.ofIndexError .bytecode key e)).Accounts files (classes + 1) failures := by
  have recorded := accounts.record (.ofIndexError .bytecode key e)
  rw [refuses.isRefusedClass key] at recorded
  obtain ⟨conflicting, existing, requested, rfl, -⟩ := refuses
  exact recorded

/-- Minor issues do not matter, so whatever enriches the findings keeps the balance. -/
theorem enriches {f f' : Findings} (accounts : f.report.Accounts files classes failures)
    (enriches : f.Enriches f') : f'.report.Accounts files classes failures := by
  have major : ∀ i : Issue, i.isMinor = true → i.isParseFailure = false ∧
      i.isDecodeFailure = false ∧ i.isDuplicateClass = false ∧ i.isRefusedClass = false := by
    intro i minor
    simpa [Issue.isMinor, and_assoc] using minor
  refine ⟨?_, ?_, ?_⟩
  · rw [← accounts.files, enriches.files, parseFailures,
      enriches.countP_issues fun i minor => (major i minor).1]
    rfl
  · rw [← accounts.classes, enriches.classes, duplicateClasses, refusedClasses,
      enriches.countP_issues fun i minor => (major i minor).2.2.1,
      enriches.countP_issues fun i minor => (major i minor).2.2.2]
    rfl
  · rw [← accounts.failures, decodeFailures,
      enriches.countP_issues fun i minor => (major i minor).2.1]
    rfl

end Accounts

end Report

/-! ## Classes that were applied -/

namespace Findings

variable {f f' : Findings} {cs : List ClassFacts} {types left : List Handle} {c : ClassFacts}
  {type : Handle}

/-- The names of the metrics that the visitors of the analysis attach. -/
def classMetrics : List String := [Metric.rfc, .lcom4].map Metric.name

/-- Among the classes `cs` those of `types` were applied, and `left` were also left again. -/
structure Covers (cs : List ClassFacts) (types left : List Handle) (f : Findings) : Prop where
  sound : f.toModel.Sound
  nodup : types.Nodup
  named : ∀ h ∈ types, ∃ c ∈ cs, f.index.IsType h c.key
  recorded : ∀ h, f.superclasses.contains h = true ↔ h ∈ types
  scanned : f.report.classesScanned = types.length
  measured : ∀ h name, name ∈ f.index.measuresOf h ↔ h ∈ left ∧ name ∈ classMetrics

namespace Covers

theorem initial (config : Config) : Covers [] [] [] { config := config } where
  sound := .empty
  nodup := .nil
  named := by simp
  recorded := by simp
  scanned := rfl
  measured h name := by simp [Index.measuresOf, Index.get?]

/-- The findings change, but for what is said about classes: their types, superclasses, measures and
number. -/
theorem alter (covers : f.Covers cs types left) (evolves : f.toModel.Evolves f'.toModel)
    (measures : ∀ h, f'.index.measuresOf h = f.index.measuresOf h)
    (superclasses : f'.superclasses = f.superclasses)
    (scanned : f'.report.classesScanned = f.report.classesScanned) : f'.Covers cs types left where
  sound := evolves.sound covers.sound
  nodup := covers.nodup
  named h applied := by
    obtain ⟨c, listed, isType⟩ := covers.named h applied
    exact ⟨c, listed, isType.grows (evolves.grows covers.sound)⟩
  recorded h := by
    rw [superclasses]
    exact covers.recorded h
  scanned := scanned.trans covers.scanned
  measured h name := by
    rw [measures]
    exact covers.measured h name

/-- What keeps measures, superclasses and counters says nothing new about the classes. -/
theorem keeps (covers : f.Covers cs types left) (keeps : f.Keeps f') : f'.Covers cs types left :=
  covers.alter keeps.evolves keeps.measures keeps.superclasses keeps.classes

theorem record (covers : f.Covers cs types left) (i : Issue) : (f.record i).Covers cs types left :=
  covers.alter (.of_alike ⟨rfl, rfl⟩) (fun _ => rfl) rfl rfl

/-- Another class is read. -/
theorem read (covers : f.Covers cs types left) (c : ClassFacts) :
    f.Covers (cs ++ [c]) types left where
  sound := covers.sound
  nodup := covers.nodup
  named h applied := by
    obtain ⟨c', listed, isType⟩ := covers.named h applied
    exact ⟨c', List.mem_append_left [c] listed, isType⟩
  recorded := covers.recorded
  scanned := covers.scanned
  measured := covers.measured

/-- A class that is new is applied.  Its type joins those with a recorded superclass; it has no
measures yet, and is the only type of which this is so. -/
theorem enter (covers : f.Covers cs types left) (isType : f.index.IsType type c.key)
    (new : type ∉ types) : (f.openClass c type).Covers (cs ++ [c]) (type :: types) left := by
  have entered := entered_evolves isType
  obtain ⟨enriches, above, inherits⟩ := openClass_inherits covers.sound isType
  have evolves := entered.trans enriches.evolves
  have grows := evolves.grows covers.sound
  refine ⟨evolves.sound covers.sound, List.nodup_cons.mpr ⟨new, covers.nodup⟩, ?_, ?_, ?_, ?_⟩
  · intro h applied
    rcases List.mem_cons.mp applied with rfl | early
    · exact ⟨c, List.mem_append_right cs List.mem_cons_self, isType.grows grows⟩
    · obtain ⟨c', listed, earlier⟩ := covers.named h early
      exact ⟨c', List.mem_append_left [c] listed, earlier.grows grows⟩
  · intro h
    have before : (f.entered type).superclasses.contains h = true ↔ h ∈ types := covers.recorded h
    rw [inherits.superclasses, Std.ExtTreeMap.contains_insert, Bool.or_eq_true, beq_iff_eq,
      Std.LawfulEqOrd.compare_eq_iff_eq, before, List.mem_cons, eq_comm]
  · have before : (f.entered type).report.classesScanned = types.length + 1 :=
      congrArg (· + 1) covers.scanned
    rw [enriches.classes, before, List.length_cons]
  · intro h name
    rw [enriches.measures]
    exact covers.measured h name

/-- The visitors have measured the class that was open.  Now all types with a recorded superclass
have the two metrics of the visitors again. -/
theorem leave (covers : f.Covers cs (type :: types) types) (remeasures : f.Remeasures f')
    {responses components : Measure}
    (measures : ∀ h, f'.index.measuresOf h = if h = type then
      ((f.index.measuresOf type).insert Metric.rfc.name responses).insert Metric.lcom4.name
        components else f.index.measuresOf h) :
    f'.Covers cs (type :: types) (type :: types) where
  sound := remeasures.evolves.sound covers.sound
  nodup := covers.nodup
  named h applied := by
    obtain ⟨c, listed, isType⟩ := covers.named h applied
    exact ⟨c, listed, isType.grows remeasures.grows⟩
  recorded h := by
    rw [remeasures.superclasses]
    exact covers.recorded h
  scanned := by
    rw [remeasures.report]
    exact covers.scanned
  measured h name := by
    have new : type ∉ types := (List.nodup_cons.mp covers.nodup).1
    rw [measures, List.mem_cons]
    split
    · next self =>
        subst self
        simp only [Std.ExtTreeMap.mem_insert, Std.LawfulEqOrd.compare_eq_iff_eq, covers.measured,
          new, classMetrics, List.map_cons, List.map_nil, List.mem_cons, List.not_mem_nil,
          false_and, or_false, true_and]
        rw [or_comm, eq_comm, eq_comm (a := Metric.lcom4.name)]
    · next other => rw [covers.measured, or_iff_right other]

end Covers

end Findings

/-! ## Sessions without external visitors -/

namespace Session

variable {files n : Nat} {cs : List ClassFacts} {types : List Handle} {c : ClassFacts}
  {type : Handle} {s t : Session σ} {f : Findings}

/-- No class is open: the classes that were applied are measured, and the report accounts for what
was read. -/
structure Idle (files : Nat) (cs : List ClassFacts) (n : Nat) (types : List Handle)
    (s : Session σ) : Prop where
  covers : s.findings.Covers cs types types
  accounts : s.findings.report.Accounts files cs.length n
  roster : ∃ response cohesion, s.roster = own response cohesion

/-- The class `c` is open: it was applied, but not yet measured, and both visitors know its type. -/
structure Busy (files : Nat) (cs : List ClassFacts) (n : Nat) (types : List Handle)
    (c : ClassFacts) (type : Handle) (s : Session σ) : Prop where
  covers : s.findings.Covers (cs ++ [c]) (type :: types) types
  accounts : s.findings.report.Accounts files (cs ++ [c]).length n
  roster : ∃ methods cohesion opened ms, opened.type = type ∧
    s.roster = own (.at type methods ms) (CohesionVisitor.at cohesion opened ms)

namespace Idle

theorem keeps (idle : Idle files cs n types s) (keeps : s.findings.Keeps f) :
    Idle files cs n types { s with findings := f } where
  covers := idle.covers.keeps keeps
  accounts := idle.accounts.enriches keeps.toEnriches
  roster := idle.roster

/-- Events outside of classes are told to nobody. -/
theorem tell (idle : Idle files cs n types s) {e : Event}
    (silent : e.phase = .source ∨ e.kind = .endScan) :
    (dispatch e).Ends s fun _ t => Idle files cs n types t := by
  obtain ⟨response, cohesion, roster⟩ := idle.roster
  refine (dispatch_silent roster silent).mono ?_
  rintro - t rfl
  exact idle

/-- A class is left out with an issue that accounts for it. -/
theorem dismiss (idle : Idle files cs n types s) {result : Except IndexError Handle} {i : Issue}
    (resolved : s.findings.resolveType c.key = (result, f))
    (accounts : (s.findings.report.record i).Accounts files (cs.length + 1) n) :
    Idle files (cs ++ [c]) n types { s with findings := f.record i } := by
  have tacit := s.findings.resolveType_tacit c.key
  rw [resolved] at tacit
  rw [← tacit.report] at accounts
  refine ⟨((idle.covers.keeps tacit.toKeeps).read c).record i, ?_, idle.roster⟩
  rw [List.length_append]
  exact accounts

/-- A class that is new is opened, and the visitors start to listen.  The issues that opening it may
record are minor, so the balance of the report goes up by one class. -/
theorem enter (idle : Idle files cs n types s)
    (resolved : s.findings.resolveType c.key = (.ok type, f)) (new : type ∉ types) :
    (dispatch (.type (BytecodeScan.typeVisit c type))).Ends
      { s with findings := f.openClass c type } fun _ t => Busy files cs n types c type t := by
  have tacit := s.findings.resolveType_tacit c.key
  rw [resolved] at tacit
  have kept := idle.covers.keeps tacit.toKeeps
  have isType := Findings.isType_of_resolveType idle.covers.sound resolved
  have covers := kept.enter isType new
  have accounts : (f.openClass c type).report.Accounts files (cs ++ [c]).length n := by
    have entered : (f.entered type).report.Accounts files (cs.length + 1) n :=
      (idle.accounts.enriches tacit.toEnriches).scanClass
    rw [List.length_append]
    exact entered.enriches (Findings.openClass_inherits kept.sound isType).1
  obtain ⟨response, cohesion, roster⟩ := idle.roster
  let opened : Session σ := { s with findings := f.openClass c type }
  have roster : opened.roster = own response cohesion := roster
  refine (dispatch_listening (e := .type (BytecodeScan.typeVisit c type)) roster rfl
    (by decide : EventKind.type ≠ .endScan) (by decide : EventKind.type ≠ .leaveType)).mono ?_
  rintro - t ⟨findings, roster'⟩
  rw [response_react_type _ rfl, cohesion_react_type _ rfl] at roster'
  refine ⟨?_, ?_, _, cohesion, cohesion.enter (BytecodeScan.typeVisit c type), [], rfl, roster'⟩
  · rw [findings]
    exact covers
  · rw [findings]
    exact accounts

end Idle

namespace Busy

theorem keeps (busy : Busy files cs n types c type s) (keeps : s.findings.Keeps f) :
    Busy files cs n types c type { s with findings := f } where
  covers := busy.covers.keeps keeps
  accounts := busy.accounts.enriches keeps.toEnriches
  roster := busy.roster

theorem knows (busy : Busy files cs n types c type s) : s.findings.index.Knows type := by
  obtain ⟨c', -, isType⟩ := busy.covers.named type List.mem_cons_self
  exact .of_key? isType.1

/-- The visitors hear of a method or of a reference. -/
theorem tell (busy : Busy files cs n types c type s) {e : Event} (inside : e.Inside type) :
    (dispatch e).Ends s fun _ t => Busy files cs n types c type t := by
  obtain ⟨methods, cohesion, opened, ms, rfl, roster⟩ := busy.roster
  obtain ⟨phase, listening, staying⟩ := inside.goes_on
  refine (dispatch_listening roster phase listening staying).mono ?_
  rintro - t ⟨findings, roster'⟩
  refine ⟨by rw [findings]; exact busy.covers, by rw [findings]; exact busy.accounts, ?_⟩
  -- the visitors go on with the same class
  cases inside with
  | method phase owner =>
      rw [response_react_method _ _ _ _ phase owner, cohesion_react_method _ _ phase owner]
        at roster'
      exact ⟨methods, cohesion, opened, _, rfl, roster'⟩
  | reference element =>
      rw [response_react_reference _ _ _ _ element, cohesion_react_reference _ _ element]
        at roster'
      exact ⟨methods, cohesion, opened, _, rfl, roster'⟩

/-- The class is left, and both visitors attach their metrics to it. -/
theorem leave (busy : Busy files cs n types c type s) :
    (dispatch (.leaveType (BytecodeScan.typeVisit c type))).Ends s fun _ t =>
      Idle files (cs ++ [c]) n (type :: types) t := by
  have known := busy.knows
  obtain ⟨methods, cohesion, opened, ms, is, roster⟩ := busy.roster
  let visit := BytecodeScan.typeVisit c type
  have element : visit.element = type := rfl
  refine ((dispatch_leave roster rfl known).and
    (dispatch_leave_at roster rfl known element is)).mono ?_
  rintro - t ⟨⟨remeasures, response, cohesion', roster', -⟩, measures⟩
  refine ⟨busy.covers.leave remeasures measures, ?_, response, cohesion', roster'⟩
  rw [remeasures.report]
  exact busy.accounts

end Busy

end Session

/-! ## Both scans -/

open Session

/-- Every step of the source scan leaves the session idle, with the files accounted for. -/
theorem SourceScan.steps_idle :
    Steps (fun files (s : Session σ) => Idle files [] 0 [] s) (fun _ _ => False) where
  coherent idle := idle.covers.sound.index.toCoherent
  say level message idle := idle.keeps (.say _ level message)
  skip path message idle :=
    ⟨idle.covers.record _, idle.accounts.record (.parseFailed path message), idle.roster⟩
  declare _ idle :=
    idle.keeps (Findings.declareFact_keeps idle.covers.sound.index.toCoherent fun _ => rfl)
  tell source _ _ idle := .of_ends (idle.tell (.inl source))
  count idle :=
    ⟨idle.covers.alter (.of_alike ⟨rfl, rfl⟩) (fun _ => rfl) rfl rfl, idle.accounts.scanFile,
      idle.roster⟩

/-- Every step of the bytecode scan keeps the balance, and every class that is entered is measured
when it is left. -/
theorem BytecodeScan.steps_idle (files : Nat) :
    Steps (fun cs n types (s : Session σ) => Idle files cs n types s)
      (fun cs n types c type s => Busy files cs n types c type s) (fun _ _ => False) where
  coherent busy := busy.covers.sound.index.toCoherent
  say level message idle := idle.keeps (.say _ level message)
  fail path message kept idle :=
    ⟨idle.covers.record _, idle.accounts.record (.decodeFailed path message kept), idle.roster⟩
  refuse {_ _ _ _ c _ _} idle resolved := by
    have refuses := Findings.refusesClass_of_resolveType idle.covers.sound (by rw [resolved])
    exact idle.dismiss resolved (idle.accounts.refuse refuses c.key)
  again {_ _ _ _ c _ _} path idle resolved _ :=
    idle.dismiss resolved (idle.accounts.record (.duplicateClass path c.key))
  enter idle resolved new := .of_ends (idle.enter resolved new)
  declare _ busy := busy.keeps (Findings.declareMember_keeps busy.covers.sound _ (.inr rfl) _)
  tell inside _ busy := .of_ends (busy.tell inside)
  refer r busy := busy.keeps (Findings.addReference_keeps busy.covers.sound _ r)
  leave busy := .of_ends busy.leave
  close idle := .of_ends (idle.tell (.inr rfl))

/-! ## Whole runs -/

namespace Analysis

theorem start_idle (config : Config) :
    Idle 0 [] 0 [] (start config ([] : List (External σ × Subscription))) where
  covers := .initial config
  accounts := .initial
  roster := ⟨_, _, rfl⟩

/-- A run without external visitors covers everything that it has read. -/
theorem scanning_idle (config : Config) (sources : List SourceFile) (artifacts : List Artifact) :
    (scanning sources artifacts).Ends (start config ([] : List (External σ × Subscription)))
      fun _ t => ∃ types s, Idle sources.length (artifacts.flatMap Artifact.classes)
        (artifacts.countP (·.error.isSome)) types (s : Session σ) ∧
        Closes s.findings t.findings := by
  have first := SourceScan.steps_idle.run sources (start_idle (σ := σ) config)
  unfold scanning
  refine first.ends.bind fun _ s idle => ?_
  have second := (BytecodeScan.steps_idle sources.length).run artifacts idle
  refine second.ends.bind ?_
  rintro - t ⟨types, idle'⟩
  have steady := Findings.steady_of_sound idle'.covers.sound
  exact (finish_ends steady).mono fun _ u closes => ⟨types, t, idle', closes⟩

section Closing

variable {f f' : Findings} {cs : List ClassFacts} {types : List Handle}

/-- The last metrics change no kind. -/
theorem isTypeLevel_of_closes (closes : Closes f f') (h : Handle) :
    f'.index.IsTypeLevel h ↔ f.index.IsTypeLevel h := by
  rw [Index.IsTypeLevel, closes.kinds]
  rfl

/-- The vertices are the types and the placeholders, since all of them become vertices at the end
and no other element ever does. -/
theorem mem_vertices_of_closes (sound : f.toModel.Sound) (closes : Closes f f') (h : Handle) :
    h ∈ f'.graph.vertices.toList ↔
      ∃ e, f'.index.get? h = some e ∧ (e.kind = .type ∨ e.kind = .external) := by
  have graph : f'.graph = f.graph.addTypes f.index := closes.graph
  rw [graph, Graph.mem_vertices_addTypes sound.graph sound.founded sound.index.toCoherent,
    ← isTypeLevel_of_closes closes]
  constructor
  · rintro ⟨kind, is, level⟩
    obtain ⟨e, found, rfl⟩ := Option.map_eq_some_iff.mp is
    exact ⟨e, found, Kind.isTypeLevel_iff.mp level⟩
  · rintro ⟨e, found, level⟩
    exact ⟨e.kind, Index.kind?_of_get? found, Kind.isTypeLevel_iff.mpr level⟩

/-- At the end types and placeholders have the last metrics, classes that were applied have those of
the visitors, and there is no other measure. -/
theorem mem_measuresOf_iff (covers : f.Covers cs types types) (closes : Closes f f') (h : Handle)
    (name : String) : name ∈ f'.index.measuresOf h ↔
      (f'.index.IsTypeLevel h ∧ name ∈ closingMetrics.map Metric.name) ∨
        (f'.superclasses.contains h = true ∧ name ∈ Findings.classMetrics) := by
  have superclasses : f'.superclasses = f.superclasses := closes.superclasses
  rw [isTypeLevel_of_closes closes, superclasses, covers.recorded, ← covers.measured]
  by_cases level : f.index.IsTypeLevel h
  · rw [closes.stamped level, mem_closingMeasures_iff]
    show name ∈ closingMetrics.map Metric.name ∨ name ∈ f.index.measuresOf h ↔ _
    rw [and_iff_right level]
  · rw [closes.untouched level]
    show name ∈ f.index.measuresOf h ↔ _
    rw [or_iff_right fun last => level last.1]

section Measured

variable {e : Element}

/-- Which measures an element has at the end of a run: the closing ones if it is a type or a
placeholder, and those of its class if one was applied. -/
theorem isSome_measure?_iff (covers : f.Covers cs types types) (closes : Closes f f')
    (found : f'.index.get? e.handle = some e) (name : String) :
    (e.measure? name).isSome = true ↔
      (e.kind.isTypeLevel = true ∧ name ∈ closingMetrics.map Metric.name) ∨
        (f'.superclasses.contains e.handle = true ∧ name ∈ Findings.classMetrics) := by
  have level : f'.index.IsTypeLevel e.handle ↔ e.kind.isTypeLevel = true := by
    rw [Index.IsTypeLevel, Index.kind?_of_get? found]
    simp
  rw [Element.measure?, Std.ExtTreeMap.isSome_getElem?_iff_mem, ← Index.measuresOf_of_get? found,
    mem_measuresOf_iff covers closes, level]

/-- A recorded superclass belongs to a type that some class was decoded for. -/
theorem isType_of_recorded (covers : f.Covers cs types types) (closes : Closes f f') {h : Handle}
    (recorded : f'.superclasses.contains h = true) : ∃ c ∈ cs, f'.index.IsType h c.key := by
  have superclasses : f'.superclasses = f.superclasses := closes.superclasses
  rw [superclasses, covers.recorded] at recorded
  obtain ⟨c, listed, isType⟩ := covers.named h recorded
  exact ⟨c, listed, isType.grows closes.grows⟩

/-- The metrics of the visitors belong to the classes with a recorded superclass. -/
theorem isSome_classMetric?_iff (covers : f.Covers cs types types) (closes : Closes f f')
    (found : f'.index.get? e.handle = some e) {metric : Metric}
    (own : metric.name ∈ Findings.classMetrics)
    (other : metric.name ∉ closingMetrics.map Metric.name) :
    (e.metric? metric).isSome = true ↔ f'.superclasses.contains e.handle = true := by
  rw [Element.metric?, isSome_measure?_iff covers closes found, and_iff_left own]
  exact or_iff_right fun last => other last.2

/-- Projects, packages and members have no measures at the end of a run, since neither visitors nor
closing metrics are about them. -/
theorem measure?_eq_none (covers : f.Covers cs types types) (closes : Closes f f')
    (found : f'.index.get? e.handle = some e) (noType : e.kind ≠ .type)
    (noPlaceholder : e.kind ≠ .external) (name : String) : e.measure? name = none := by
  rw [← Option.not_isSome_iff_eq_none, isSome_measure?_iff covers closes found]
  rintro (⟨level, -⟩ | ⟨recorded, -⟩)
  · exact (Kind.isTypeLevel_iff.mp level).elim noType noPlaceholder
  · obtain ⟨c, -, -, kind⟩ := isType_of_recorded covers closes recorded
    rw [Index.kind?_of_get? found, Option.some.injEq] at kind
    exact noType kind

end Measured

/-- The classes that were counted are the elements with a recorded superclass, because each class
that is applied records one, if only that there is none. -/
theorem classesScanned_eq (covers : f.Covers cs types types) (closes : Closes f f') :
    f'.report.classesScanned =
      (f'.index.search fun e => f'.superclasses.contains e.handle).length := by
  have superclasses : f'.superclasses = f.superclasses := closes.superclasses
  have report : f'.report = f.report := closes.report
  have coherent : f'.index.Coherent := (covers.sound.index.moves closes.moves).toCoherent
  have same : ((f'.index.search fun e => f'.superclasses.contains e.handle).map
      Element.handle).Perm types := by
    refine (List.perm_ext_iff_of_nodup (coherent.nodup_handle_search _) covers.nodup).mpr fun h => ?_
    rw [List.mem_map, ← covers.recorded, ← superclasses]
    constructor
    · rintro ⟨e, listed, rfl⟩
      exact (coherent.mem_search_iff.mp listed).2
    · intro recorded
      obtain ⟨c, -, isType⟩ := isType_of_recorded covers closes recorded
      obtain ⟨e, found⟩ := Index.knows_iff_get?.mp (.of_key? isType.1)
      have handle := coherent.handle_eq found
      subst handle
      exact ⟨e, coherent.mem_search_iff.mpr ⟨found, recorded⟩, rfl⟩
  rw [report, covers.scanned, ← same.length_eq, List.length_map]

end Closing

/-- **A run without external visitors covers what it reads.**  The vertices are the types and the
placeholders, and they have the four last metrics; the response set and the cohesion are measured for
the classes that were applied, and nothing else is measured.  Every source file was scanned or
skipped, and every decoded class was applied, met again or refused. -/
theorem measures_and_report_cover (config : Config) (sources : List SourceFile)
    (artifacts : List Artifact) :
    ∃ a, run config ([] : List (External σ × Subscription)) sources artifacts = .ok a ∧
      (∀ h, h ∈ a.graph.vertices.toList ↔
        ∃ e, a.index.get? h = some e ∧ (e.kind = .type ∨ e.kind = .external)) ∧
      (∀ e ∈ a.index.elements.toList,
        ((e.kind = .type ∨ e.kind = .external) →
          ∀ metric ∈ [Metric.dit, .noc, .ca, .ce], (e.metric? metric).isSome = true) ∧
        ((e.metric? .rfc).isSome = true ↔ a.findings.superclasses.contains e.handle = true) ∧
        ((e.metric? .lcom4).isSome = true ↔ a.findings.superclasses.contains e.handle = true) ∧
        (e.kind ≠ .type → e.kind ≠ .external → ∀ name, e.measure? name = none)) ∧
      (∀ h, a.findings.superclasses.contains h = true → ∃ e,
        a.index.get? h = some e ∧ e.kind = .type ∧
          e.key ∈ (artifacts.flatMap Artifact.classes).map ClassFacts.key) ∧
      a.findings.report.classesScanned =
        (a.index.search fun e => a.findings.superclasses.contains e.handle).length ∧
      a.findings.report.filesScanned + a.findings.report.parseFailures = sources.length ∧
      a.findings.report.decodeFailures = artifacts.countP (·.error.isSome) ∧
      (artifacts.flatMap Artifact.classes).length =
        a.findings.report.classesScanned + a.findings.report.duplicateClasses +
          a.findings.report.refusedClasses := by
  obtain ⟨⟨⟩, t, ran, types, s, ⟨covers, accounts, -⟩, closes⟩ :=
    scanning_idle (σ := σ) config sources artifacts
  have coherent : t.findings.index.Coherent := (covers.sound.index.moves closes.moves).toCoherent
  have report : t.findings.report = s.findings.report := closes.report
  refine ⟨⟨t.findings⟩, ?_, mem_vertices_of_closes covers.sound closes, fun e listed => ?_,
    fun h recorded => ?_, classesScanned_eq covers closes, ?_, ?_, ?_⟩
  · rw [run, runSession, ran]
    rfl
  · have found : t.findings.index.get? e.handle = some e := coherent.mem_elements_iff.mp listed
    refine ⟨fun level metric wanted => ?_, ?_, ?_, measure?_eq_none covers closes found⟩
    · rw [Element.metric?, isSome_measure?_iff covers closes found]
      exact .inl ⟨Kind.isTypeLevel_iff.mpr level, List.mem_map_of_mem wanted⟩
    · exact isSome_classMetric?_iff covers closes found (by decide) (by decide)
    · exact isSome_classMetric?_iff covers closes found (by decide) (by decide)
  · obtain ⟨c, listed, key, kind⟩ := isType_of_recorded covers closes recorded
    obtain ⟨e, found, same⟩ := Option.map_eq_some_iff.mp key
    rw [Index.kind?_of_get? found, Option.some.injEq] at kind
    exact ⟨e, found, kind, List.mem_map.mpr ⟨c, listed, same.symm⟩⟩
  · show t.findings.report.filesScanned + t.findings.report.parseFailures = _
    rw [report, accounts.files]
  · show t.findings.report.decodeFailures = _
    rw [report, accounts.failures]
  · show _ = t.findings.report.classesScanned + _ + _
    rw [report, accounts.classes]

end Analysis

end CodeMetrics
