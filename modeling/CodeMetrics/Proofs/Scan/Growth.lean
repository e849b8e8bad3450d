import CodeMetrics.Proofs.Scan.Persistence
import CodeMetrics.Proofs.Scan.Safety

/-!
# What is there stays there

An element that is in the index once keeps its handle and its key for good.  It becomes a type if it
was a placeholder, it gets an owner if it had none, and it gets children after those it has; all
else about it but the measures is final.  So what the source scan says about ownership is never
revised.

`Element.Becomes` is this relation between an element then and now.  It holds along any history of
changes in which the elements are not forgotten, and along the bytecode scan and the last metrics of
any run, also of one that a visitor stops.  Measures are accounted for by the attachments in
between.
-/

namespace CodeMetrics

variable {σ : Type}

/-- What may become of an element, apart from its measures. -/
structure Element.Becomes (e e' : Element) : Prop where
  handle : e'.handle = e.handle
  key : e'.key = e.key
  kind : e'.kind = e.kind ∨ e.kind = .external ∧ e'.kind = .type
  parent : ∀ {owner : Handle}, e.parent = some owner → e'.parent = some owner
  children : e.children <+: e'.children

/-- What an index says about all handles, said about the element of one: it keeps its handle and
key, and nothing of it is taken away. -/
theorem Index.Grows.becomes {ix ix' : Index} (grows : ix.Grows ix') (coherent : ix.Coherent)
    (coherent' : ix'.Coherent) {h : Handle} {e : Element} (found : ix.get? h = some e) :
    ∃ e', ix'.get? h = some e' ∧ e.Becomes e' := by
  obtain ⟨e', found'⟩ := knows_iff_get?.mp (grows.knows (.of_get? found))
  have key := grows.key_kept (key?_of_get? found)
  have kind := grows.kind_kept (kind?_of_get? found)
  have children := grows.children_kept h
  rw [key?_of_get? found', Option.some.injEq] at key
  rw [kind?_of_get? found', Option.some.injEq, Option.some.injEq] at kind
  rw [childrenOf_of_get? found, childrenOf_of_get? found'] at children
  refine ⟨e', found', ?_, key, kind, fun {owner} owned => ?_, children⟩
  · rw [coherent.handle_eq found, coherent'.handle_eq found']
  · rw [← parent?_of_get? found] at owned
    rw [← parent?_of_get? found', grows.parent_kept owned]

/-! ## Histories -/

namespace Model

/-- An element at one point of a history and at a later one.  In between it may have been promoted,
adopted and measured. -/
theorem becomes_of_applyAll {m : Model} (sound : m.index.Sound) {changes : List Change}
    (kept : Change.clearIndex ∉ changes) {h : Handle} {e : Element}
    (found : m.index.get? h = some e) :
    ∃ e', (m.applyAll changes).index.get? h = some e' ∧ e.Becomes e' ∧
      ∀ name, e'.measure? name =
        (changes.filterMap (Change.value? h e.key name)).getLast?.or (e.measure? name) := by
  have grows : m.index.Grows (m.applyAll changes).index :=
    .of_moves (applyAll_moves sound fun _ listed same => kept (same ▸ listed))
  obtain ⟨e', found', becomes⟩ := grows.becomes sound.toCoherent
    (m.applyAll_sound sound changes).toCoherent found
  refine ⟨e', found', becomes, fun name => ?_⟩
  have measures := measure?_applyAll sound (Index.key?_of_get? found) kept name
  rwa [Index.measure?_of_get? name found, Index.measure?_of_get? name found'] at measures

end Model

/-! ## Sessions -/

open Scanning

namespace Session

/-- From `s` to `t` the index has grown, and the calls that were made explain the measures. -/
structure Explains (calls : List Callback) (s t : Session σ) : Prop where
  transcript : t.transcript.toList = s.transcript.toList ++ calls
  grows : s.findings.index.Grows t.findings.index
  measures : ∀ {h : Handle}, s.findings.index.Knows h → ∀ name,
    t.findings.index.measure? h name =
      (Callback.values calls h name).getLast?.or (s.findings.index.measure? h name)

namespace Explains

variable {calls : List Callback} {s t u : Session σ} {f : Findings}

theorem refl (s : Session σ) : Explains [] s s where
  transcript := (List.append_nil _).symm
  grows := .refl _
  measures _ _ := rfl

/-- The scan changes the findings and attaches nothing. -/
theorem alter (explains : Explains calls s t) (grows : t.findings.index.Grows f.index)
    (measures : ∀ h, f.index.measuresOf h = t.findings.index.measuresOf h) :
    Explains calls s { t with findings := f } where
  transcript := explains.transcript
  grows := explains.grows.trans grows
  measures known name :=
    (Index.measure?_congr name (measures _)).trans (explains.measures known name)

theorem hears (explains : Explains calls s t) {more : List Callback} (hears : Hears more t u) :
    Explains (calls ++ more) s u where
  transcript := by rw [hears.transcript, explains.transcript, List.append_assoc]
  grows := explains.grows.trans hears.grows
  measures known name := by
    rw [hears.findings, Findings.measure?_effects (explains.grows.knows known),
      explains.measures known, ← Option.or_assoc, Callback.values_append, List.getLast?_append]
    rfl

end Explains

/-- The calls since `s` explain the measures of `t`. -/
def Since (s t : Session σ) : Prop := ∃ calls, Explains calls s t

/-- Wherever the scans go from `s`, the calls since then explain the measures. -/
theorem since_persistent (s : Session σ) : Persistent (Since s) where
  alter := by
    rintro t f ⟨calls, explains⟩ grows measures
    exact ⟨calls, explains.alter grows measures⟩
  dispatch := by
    rintro t e ⟨calls, explains⟩ known
    have leaving : ∀ visit, e = .leaveType visit → t.findings.index.Knows visit.element := by
      rintro visit rfl
      exact known rfl
    refine (dispatch_runs e leaving).mono ?_ ?_
    · rintro - u ⟨more, hears, -⟩
      exact ⟨calls ++ more, explains.hears hears⟩
    · rintro err _ ⟨more, v, message, hears, rfl, -⟩
      exact ⟨calls ++ more, (explains.hears hears).alter (.refl _) fun _ => rfl⟩

end Session

open Session

/-! ## Runs -/

namespace Analysis

variable {config : Config} {visitors : List (External σ × Subscription)}
  {sources : List SourceFile} {artifacts : List Artifact} {s t u : Session σ}

theorem getElem?_closingMeasures {name : String} (other : name ∉ closingMetrics.map Metric.name)
    (i : Inheritance) (g : Graph) (h : Handle) (m : Std.ExtTreeMap String Measure) :
    (closingMeasures i g h m)[name]? = m[name]? := by
  simp only [closingMetrics, List.map_cons, List.map_nil, List.mem_cons, List.not_mem_nil, or_false,
    not_or, eq_comm (a := name)] at other
  simp [closingMeasures, Findings.couple, Std.ExtTreeMap.getElem?_insert, other]

/-- The last metrics leave the other measures as they were. -/
theorem measure?_of_closes (closes : Closes u.findings t.findings) {h : Handle} {name : String}
    (other : name ∈ closingMetrics.map Metric.name → ¬ t.findings.index.IsTypeLevel h) :
    t.findings.index.measure? h name = u.findings.index.measure? h name := by
  by_cases level : u.findings.index.IsTypeLevel h
  · have unlisted : name ∉ closingMetrics.map Metric.name := by
      intro listed
      obtain ⟨kind, is, level⟩ := level
      exact other listed ⟨kind, (closes.kinds h).trans is, level⟩
    rw [Index.measure?, closes.stamped level, getElem?_closingMeasures unlisted]
    rfl
  · exact Index.measure?_congr name (closes.untouched level)

/-- How an element goes on from `s` to `t` when the calls were made and perhaps the last metrics
were attached. -/
def Outlasts (calls : List Callback) (s t : Session σ) : Prop :=
  t.transcript.toList = s.transcript.toList ++ calls ∧
    ∀ (h : Handle) (e : Element), s.findings.index.get? h = some e →
      ∃ e', t.findings.index.get? h = some e' ∧ e.Becomes e' ∧
        ∀ name, (name ∈ closingMetrics.map Metric.name → e'.kind.isTypeLevel = false) →
          e'.measure? name = (Callback.values calls h name).getLast?.or (e.measure? name)

/-- What explains the measures at one moment accounts for an element at a later one, if the index
grows between them and the calls are the same. -/
theorem outlasts_of_explains {calls : List Callback} (explains : Explains calls s u)
    (transcript : t.transcript = u.transcript)
    (grows : u.findings.index.Grows t.findings.index) (coherent : s.findings.index.Coherent)
    (coherent' : t.findings.index.Coherent)
    (measures : ∀ h name,
      (name ∈ closingMetrics.map Metric.name → ¬ t.findings.index.IsTypeLevel h) →
      t.findings.index.measure? h name = u.findings.index.measure? h name) :
    Outlasts calls s t := by
  refine ⟨by rw [transcript, explains.transcript], fun h e found => ?_⟩
  obtain ⟨e', found', becomes⟩ :=
    (explains.grows.trans grows).becomes coherent coherent' found
  refine ⟨e', found', becomes, fun name other => ?_⟩
  have kept : t.findings.index.measure? h name = u.findings.index.measure? h name := by
    refine measures h name fun listed level => ?_
    obtain ⟨kind, is, level⟩ := level
    rw [Index.kind?_of_get? found', Option.some.injEq] at is
    rw [← is, other listed] at level
    cases level
  rw [Index.measure?_of_get? name found', explains.measures (.of_get? found),
    Index.measure?_of_get? name found] at kept
  exact kept

variable (artifacts) in
/-- What the source scan has left behind outlasts the rest of the run, whether that ends or is
stopped by a visitor. -/
theorem outlasts_of_source
    (ended : (SourceScan.run sources).runOn (start config visitors) = (.ok (), s)) :
    ∃ calls, Outlasts calls s (runSession config visitors sources artifacts).2 := by
  have underway : Underway (start config visitors).roster.badges [] s :=
    ((SourceScan.steps_underway _).run sources (start_underway config visitors)).ok ended
  have coherent := underway.sound.index.toCoherent
  have scanned := (BytecodeScan.steps_persistent _ (since_persistent s)).run artifacts
    ⟨underway, [], .refl s⟩
  have sane := runSession_sane config visitors sources artifacts
  have session : runSession config visitors sources artifacts =
      (BytecodeScan.run artifacts >>= fun _ => finish).runOn s := runOn_bind_of_ok ended
  rw [session] at sane ⊢
  have coherent' := sane.sound.index.toCoherent
  rcases run : (BytecodeScan.run artifacts).runOn s with ⟨e | done, u⟩
  · rw [runOn_bind_of_error run] at coherent' ⊢
    obtain ⟨calls, explains⟩ := scanned.error run
    exact ⟨calls, outlasts_of_explains explains rfl (.refl _) coherent coherent' fun _ _ _ => rfl⟩
  · rw [runOn_bind_of_ok run] at coherent' ⊢
    obtain ⟨types, underway', calls, explains⟩ := scanned.ok run
    obtain ⟨_, t, ran, finished⟩ := finish_runs underway'
    rw [ran] at coherent' ⊢
    exact ⟨calls, outlasts_of_explains explains finished.transcript
      (.of_moves finished.closes.moves) coherent coherent'
      fun _ _ => measure?_of_closes finished.closes⟩

/-- **The index only grows.**  Wherever a history of changes has led, an element that is there
stays: it keeps its handle and its key, its kind unless it is a placeholder that becomes a type, its
owner if it has one, and its children, in front of any others.  Its measures are the last values
that later changes attach to it, by handle or by key, and the old ones otherwise.

The bytecode scan and the last metrics of a run do the same to the elements that the source scan has
left behind, whether the run ends or a visitor stops it.  There the attachments are those among the
answers of visitors since then, apart from the last metrics of types and placeholders. -/
theorem index_only_grows :
    (∀ (before after : List Model.Change) (h : Handle) (e : Element),
      Model.Change.clearIndex ∉ after → (({} : Model).applyAll before).index.get? h = some e →
      ∃ e', (({} : Model).applyAll (before ++ after)).index.get? h = some e' ∧ e.Becomes e' ∧
        ∀ name, e'.measure? name =
          (after.filterMap (Model.Change.value? h e.key name)).getLast?.or (e.measure? name)) ∧
      ∀ {σ : Type} (config : Config) (visitors : List (External σ × Subscription))
        (sources : List SourceFile) (artifacts : List Artifact) (s : Session σ),
        (SourceScan.run sources).runOn (start config visitors) = (.ok (), s) →
        ∃ calls, Outlasts calls s (runSession config visitors sources artifacts).2 := by
  constructor
  · intro before after h e kept found
    have sound := Model.applyAll_sound {} .empty before
    rw [Model.applyAll_append]
    exact Model.becomes_of_applyAll sound kept found
  · intro σ config visitors sources artifacts s ended
    exact outlasts_of_source artifacts ended

section Adopted

/-- A type that is only mentioned, first by a dependency and then as the owner of a method. -/
def sightings : List Model.Change :=
  [.addEdge "q/B" "p/A" .call, .register "p/A#m()V" .method (some "p/A"),
    .attach "p/A" "mark" .cycle]

/-- The type turns up after all, with a package around it. -/
def discovery : List Model.Change :=
  [.register "p/A" .type (some "p"), .register "p/A#n()V" .method (some "p/A"),
    .attachTo ⟨1⟩ "sign" .cycle]

/-- A file with a type in it. -/
def declaredType : List SourceFile :=
  [{ path := "A.java", result := .ok [⟨.file, "A.java", none⟩, ⟨.type, "p/A", some "A.java"⟩] }]

/-- The type again, with a superclass in its package. -/
def decodedType : List Artifact :=
  let c : ClassFacts :=
    { key := "p/A", superclass := some "p/Base", interfaces := [], fields := [], methods := [] }
  [{ path := "a.jar", classes := [c], error := none }]

/-- It marks whatever it is told of. -/
def marker : External Unit where
  name := "marker"
  interests := EventKind.all
  memory := ()
  react _ _ e := ((), { effects := e.element?.toList.map (Effect.attach · "mark" .cycle) })

theorem index_only_grows_discovery :
    (∃ e e', (({} : Model).applyAll sightings).index.get? ⟨1⟩ = some e ∧
      (({} : Model).applyAll (sightings ++ discovery)).index.get? ⟨1⟩ = some e' ∧
      (e.kind, e.parent, e.children) = (.external, none, [⟨2⟩]) ∧
      (e'.kind, e'.parent, e'.children) = (.type, some ⟨3⟩, [⟨2⟩, ⟨4⟩]) ∧ e.Becomes e' ∧
      e'.measure? "mark" = e.measure? "mark" ∧ e'.measure? "sign" = some .cycle) ∧
      ∃ s, (SourceScan.run declaredType).runOn (start {} [(marker, .both)]) = (.ok (), s) ∧
        s.findings.index.size = 2 ∧
        ∃ calls, Outlasts calls s (runSession {} [(marker, .both)] declaredType decodedType).2 := by
  constructor
  · have kept : Model.Change.clearIndex ∉ discovery := by simp [discovery]
    have early : (((({} : Model).applyAll sightings).index.get? ⟨1⟩).map
        fun e => (e.kind, e.parent, e.children)) = some (.external, none, [⟨2⟩]) := by
      decide +kernel
    have late : (((({} : Model).applyAll (sightings ++ discovery)).index.get? ⟨1⟩).map
        fun e => (e.kind, e.parent, e.children)) = some (.type, some ⟨3⟩, [⟨2⟩, ⟨4⟩]) := by
      decide +kernel
    obtain ⟨e, found, shape⟩ := Option.map_eq_some_iff.mp early
    obtain ⟨e', found', becomes, measures⟩ := index_only_grows.1 _ _ _ _ kept found
    rw [found', Option.map_some, Option.some.injEq] at late
    have mark := measures "mark"
    have sign := measures "sign"
    exact ⟨e, e', found, found', shape, late, becomes, mark, sign⟩
  · have ended : ((SourceScan.run declaredType).runOn (start {} [(marker, .both)])).1 =
        .ok () := by
      decide +kernel
    have elements : ((SourceScan.run declaredType).runOn
        (start {} [(marker, .both)])).2.findings.index.size = 2 := by
      decide +kernel
    exact ⟨_, Prod.ext ended rfl, elements,
      index_only_grows.2 _ _ _ decodedType _ (Prod.ext ended rfl)⟩

end Adopted

end Analysis

end CodeMetrics
