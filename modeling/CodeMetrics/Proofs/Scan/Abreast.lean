import CodeMetrics.Proofs.Scan.Anatomy
import CodeMetrics.Proofs.Scan.Callbacks

/-!
# Runs side by side

The journal and the report are only written to.  Nothing else in the findings depends on them, and
neither do the answers of the visitors of the analysis itself.  Two sessions that differ in nothing
else therefore stay that way, whatever is done in both of them.

How the two reports are related is left open: `Report.Lasting` asks that the relation lasts while
both reports get the same.  With a relation that looks at one report only, a run side by side with
itself tells what becomes of its report.
-/

namespace CodeMetrics

variable {σ α β : Type} {issues : Issue → Prop} {related : Report → Report → Prop}

/-- A relation that lasts while two reports get the same issues and counts. -/
structure Report.Lasting (issues : Issue → Prop) (related : Report → Report → Prop) : Prop where
  record : ∀ {r r' : Report} {i : Issue}, issues i → related r r' →
    related (r.record i) (r'.record i)
  files : ∀ {r r' : Report}, related r r' →
    related { r with filesScanned := r.filesScanned + 1 }
      { r' with filesScanned := r'.filesScanned + 1 }
  classes : ∀ {r r' : Report}, related r r' →
    related { r with classesScanned := r.classesScanned + 1 }
      { r' with classesScanned := r'.classesScanned + 1 }

/-- Two reports that are equal stay equal, whatever is recorded in both of them. -/
theorem Report.lasting_eq : Report.Lasting issues Eq where
  record _ same := same ▸ rfl
  files same := same ▸ rfl
  classes same := same ▸ rfl

/-- What the index refuses is an issue of a fact, and no failure to parse or decode. -/
theorem Issue.isFailure_ofIndexError (phase : Phase) (key : String) (e : IndexError) :
    (ofIndexError phase key e).isFailure = false := by
  cases e <;> rfl

/-- What the graph refuses is an issue of a fact, and no failure to parse or decode. -/
theorem Issue.isFailure_ofGraphError (phase : Phase) (key : String) (e : GraphError) :
    (ofGraphError phase key e).isFailure = false := by
  cases e with
  | notAType key kind => rfl
  | index e => exact isFailure_ofIndexError phase key e

/-! ## Findings -/

namespace Findings

variable {f g : Findings}

/-- The findings are the same, but for the journal and for their reports, which are related. -/
structure Agrees (related : Report → Report → Prop) (f g : Findings) : Prop where
  model : f.toModel.Alike g.toModel
  config : g.config = f.config
  superclasses : g.superclasses = f.superclasses
  report : related f.report g.report

/-- The answers are the same, and the findings agree. -/
def Matches (related : Report → Report → Prop) (x y : α × Findings) : Prop :=
  x.1 = y.1 ∧ x.2.Agrees related y.2

/-- Two outcomes that match give the same answer and leave findings that agree. -/
theorem Matches.split {x y : α × Findings} (same : Matches related x y) :
    ∃ a f g, x = (a, f) ∧ y = (a, g) ∧ f.Agrees related g :=
  ⟨x.1, x.2, y.2, rfl, Prod.ext same.1.symm rfl, same.2⟩

namespace Agrees

/-- Findings that agree differ in their journal and their report only.  So whatever is computed from
the rest of them is the same. -/
theorem eq_with (agrees : f.Agrees related g) : ∃ journal report,
    g = { f with journal := journal, report := report } ∧ related f.report report := by
  obtain ⟨journal, model⟩ := agrees.model.eq_with
  refine ⟨journal, g.report, ?_, agrees.report⟩
  rw [← agrees.config, ← agrees.superclasses]
  exact congrArg (Findings.mk · g.config g.superclasses g.report) model

/-- Findings that agree still do when each of them gets a model, if the two models are alike. -/
theorem withModel {m n : Model} (agrees : f.Agrees related g) (alike : m.Alike n) :
    (f.withModel m).Agrees related (g.withModel n) :=
  ⟨alike, agrees.config, agrees.superclasses, agrees.report⟩

/-- Messages may even differ, since no journal is ever compared. -/
theorem say (agrees : f.Agrees related g) (level : Level) (message message' : String) :
    (f.say level message).Agrees related (g.say level message') :=
  agrees.withModel ⟨agrees.model.index, agrees.model.graph⟩

/-- Findings that agree stay so when the same issue is recorded in both, provided that the relation
between their reports lasts. -/
theorem record (agrees : f.Agrees related g) (lasting : Report.Lasting issues related) {i : Issue}
    (allowed : issues i) : (f.record i).Agrees related (g.record i) :=
  ⟨⟨agrees.model.index, agrees.model.graph⟩, agrees.config, agrees.superclasses,
    lasting.record allowed agrees.report⟩

/-- Registering an element answers alike in findings that agree. -/
theorem declare (agrees : f.Agrees related g) (key : String) (kind : Kind)
    (parent : Option String) :
    Matches related (f.declare key kind parent) (g.declare key kind parent) := by
  obtain ⟨journal, report, rfl, reported⟩ := agrees.eq_with
  unfold Findings.declare Model.register
  cases f.index.register key kind parent with
  | ok result => exact ⟨rfl, ⟨rfl, rfl⟩, rfl, rfl, reported⟩
  | error e => exact ⟨rfl, ⟨rfl, rfl⟩, rfl, rfl, reported⟩

section Lasting

variable (lasting : Report.Lasting issues related)
  (ordinary : ∀ i : Issue, i.isFailure = false → issues i)
include lasting ordinary

/-- Registering the element of a fact answers alike, and if it is refused then the issue is the
same. -/
theorem declareFact (agrees : f.Agrees related g) (phase : Phase) (key : String) (kind : Kind)
    (parent : Option String) :
    Matches related (f.declareFact phase key kind parent)
      (g.declareFact phase key kind parent) := by
  obtain ⟨answer, f₁, g₁, run, run', agrees₁⟩ := (agrees.declare key kind parent).split
  unfold Findings.declareFact
  rw [run, run']
  cases answer with
  | ok h => exact ⟨rfl, agrees₁⟩
  | error e =>
      exact ⟨rfl, agrees₁.record lasting (ordinary _ (Issue.isFailure_ofIndexError phase key e))⟩

/-- Counting a dependency answers alike in findings that agree. -/
theorem depend (agrees : f.Agrees related g) (source target : String) (kind : EdgeKind) :
    Matches related (f.depend source target kind) (g.depend source target kind) := by
  obtain ⟨same, alike⟩ := agrees.model.addEdge source target kind
  have agrees₁ := agrees.withModel alike
  unfold Findings.depend
  dsimp only
  rw [← same]
  cases (f.toModel.addEdge source target kind).1 with
  | ok number => exact ⟨rfl, agrees₁⟩
  | error e =>
      exact ⟨rfl, agrees₁.record lasting
        (ordinary _ (Issue.isFailure_ofGraphError .bytecode target e))⟩

/-- The same superclass is recorded in findings that agree, since the handle is looked up in equal
indexes. -/
theorem addSuperclass (agrees : f.Agrees related g) (c : ClassFacts) (type : Handle) :
    (f.addSuperclass c type).Agrees related (g.addSuperclass c type) := by
  have recorded {f g : Findings} (agrees : f.Agrees related g) (superclass : Option Handle) :
      (f.recordSuperclass type superclass).Agrees related (g.recordSuperclass type superclass) := by
    obtain ⟨journal, report, rfl, reported⟩ := agrees.eq_with
    exact ⟨⟨rfl, rfl⟩, rfl, rfl, reported⟩
  unfold Findings.addSuperclass
  cases c.superclass with
  | none => exact recorded agrees none
  | some superclass =>
      obtain ⟨accepted, f₁, g₁, run, run', agrees₁⟩ :=
        (agrees.depend lasting ordinary c.key superclass .extension).split
      dsimp only
      rw [run, run']
      dsimp only
      rw [← agrees₁.model.index]
      exact recorded agrees₁ _

/-- The same dependencies on interfaces are counted in findings that agree. -/
theorem addInterfaces (agrees : f.Agrees related g) (c : ClassFacts) :
    (f.addInterfaces c).Agrees related (g.addInterfaces c) := by
  unfold Findings.addInterfaces
  induction c.interfaces generalizing f g with
  | nil => exact agrees
  | cons key rest ih => exact ih (agrees.depend lasting ordinary c.key key .implementation).2

/-- The same fields are registered in findings that agree. -/
theorem addFields (agrees : f.Agrees related g) (c : ClassFacts) :
    (f.addFields c).Agrees related (g.addFields c) := by
  unfold Findings.addFields
  induction c.fields generalizing f g with
  | nil => exact agrees
  | cons field rest ih =>
      exact ih (agrees.declareFact lasting ordinary .bytecode _ .field (some c.key)).2

/-- Opening a class counts it in both reports, and then adds the same facts. -/
theorem openClass (agrees : f.Agrees related g) (c : ClassFacts) (type : Handle) :
    (f.openClass c type).Agrees related (g.openClass c type) := by
  refine addFields lasting ordinary (addInterfaces lasting ordinary
    (addSuperclass lasting ordinary ?_ c type) c) c
  obtain ⟨journal, report, rfl, reported⟩ := agrees.eq_with
  exact ⟨⟨rfl, rfl⟩, rfl, rfl, lasting.classes reported⟩

end Lasting

/-! ### Types -/

/-- The same project is found or made in findings that agree, since the configuration belongs to
what they agree on. -/
theorem ensureProject (agrees : f.Agrees related g) :
    Matches related f.ensureProject g.ensureProject := by
  obtain ⟨answer, f₁, g₁, run, run', agrees₁⟩ :=
    (agrees.declare f.config.projectKey .project none).split
  unfold Findings.ensureProject
  rw [← agrees.model.index, agrees.config]
  cases f.index.project? with
  | some e => exact ⟨rfl, agrees⟩
  | none =>
      dsimp only
      rw [run, run']
      dsimp only
      rw [agrees₁.config]
      exact ⟨rfl, agrees₁⟩

/-- A type is placed at the same handle, or refused for the same reason: on account of the project,
of its package or of the type itself. -/
theorem placeType (agrees : f.Agrees related g) (key : String) :
    Matches related (f.placeType key) (g.placeType key) := by
  obtain ⟨answer, f₁, g₁, run, run', agrees₁⟩ := agrees.ensureProject.split
  unfold Findings.placeType
  rw [run, run']
  cases answer with
  | error e => exact ⟨rfl, agrees₁⟩
  | ok project =>
      cases Key.package? key with
      | none => exact agrees₁.declare key .type (some project)
      | some package =>
          obtain ⟨answer, f₂, g₂, run, run', agrees₂⟩ :=
            (agrees₁.declare package .package (some project)).split
          dsimp only
          rw [run, run']
          cases answer with
          | error e => exact ⟨rfl, agrees₂⟩
          | ok h => exact agrees₂.declare key .type (some package)

/-- The type of a class is the same in findings that agree.  Reports play no part in finding or
placing it. -/
theorem resolveType (agrees : f.Agrees related g) (key : String) :
    Matches related (f.resolveType key) (g.resolveType key) := by
  have placed := agrees.placeType key
  unfold Findings.resolveType
  rw [← agrees.model.index]
  cases f.index.find? key with
  | none => exact placed
  | some e =>
      dsimp only
      cases e.kind with
      | external => exact placed
      | type => exact ⟨rfl, agrees⟩
      | project => exact ⟨rfl, agrees⟩
      | package => exact ⟨rfl, agrees⟩
      | file => exact ⟨rfl, agrees⟩
      | method => exact ⟨rfl, agrees⟩
      | field => exact ⟨rfl, agrees⟩

end Agrees

/-! ### The final measures -/

/-- Both fail alike, or neither fails and the findings agree. -/
inductive AgreesUnless (related : Report → Report → Prop) :
    Except IndexError Findings → Except IndexError Findings → Prop where
  | ok {f g : Findings} (agrees : f.Agrees related g) : AgreesUnless related (.ok f) (.ok g)
  | error (e : IndexError) : AgreesUnless related (.error e) (.error e)

namespace AgreesUnless

/-- Two computations that both fail with one error, or both go on from findings that agree, may be
continued alike. -/
theorem bind {x y : Except IndexError Findings} {k k' : Findings → Except IndexError Findings}
    (first : AgreesUnless related x y)
    (rest : ∀ f g, f.Agrees related g → AgreesUnless related (k f) (k' g)) :
    AgreesUnless related (x >>= k) (y >>= k') := by
  cases first with
  | ok agrees => exact rest _ _ agrees
  | error e => exact .error e

/-- A loop over the same list keeps findings in agreement if every round does. -/
theorem foldlM {step : Findings → α → Except IndexError Findings}
    (round : ∀ a f g, f.Agrees related g → AgreesUnless related (step f a) (step g a))
    (l : List α) (agrees : f.Agrees related g) :
    AgreesUnless related (l.foldlM step f) (l.foldlM step g) := by
  induction l generalizing f g with
  | nil => exact .ok agrees
  | cons a rest ih =>
      rw [List.foldlM_cons, List.foldlM_cons]
      exact (round a f g agrees).bind fun f g agrees => ih agrees

/-- A metric is attached in both findings, or in none of them. -/
theorem attachMetric (agrees : f.Agrees related g) (h : Handle) (metric : Metric)
    (value : Measure) :
    AgreesUnless related (f.attachMetric h metric value) (g.attachMetric h metric value) := by
  obtain ⟨journal, report, rfl, reported⟩ := agrees.eq_with
  unfold Findings.attachMetric attachMeasure
  cases f.index.attachTo h metric.name value with
  | ok index => exact .ok ⟨⟨rfl, rfl⟩, rfl, rfl, reported⟩
  | error e => exact .error e

/-- The same depths are attached.  A cycle is written to both journals. -/
theorem attachDepths (agrees : f.Agrees related g) (i : Inheritance) :
    AgreesUnless related (f.attachDepths i) (g.attachDepths i) := by
  unfold Findings.attachDepths
  rw [← agrees.model.index]
  refine (foldlM (fun e f g agrees => ?_) _ agrees).bind fun f g agrees =>
    .ok (agrees.say _ _ _)
  unfold attachDepth
  dsimp only
  split
  · exact attachMetric (agrees.say _ _ _) _ _ _
  · exact attachMetric agrees _ _ _

/-- The same numbers of children are attached. -/
theorem attachChildCounts (agrees : f.Agrees related g) (i : Inheritance) :
    AgreesUnless related (f.attachChildCounts i) (g.attachChildCounts i) := by
  unfold Findings.attachChildCounts
  rw [← agrees.model.index]
  refine (foldlM (fun e f g agrees => ?_) _ agrees).bind fun f g agrees =>
    .ok (agrees.say _ _ _)
  exact attachMetric agrees _ _ _

/-- The same couplings are attached, because the graphs are equal. -/
theorem attachCouplings (agrees : f.Agrees related g) :
    AgreesUnless related f.attachCouplings g.attachCouplings := by
  unfold Findings.attachCouplings
  rw [← agrees.model.graph]
  refine foldlM (fun h f g agrees => ?_) _ agrees
  unfold attachCoupling
  rw [← agrees.model.graph]
  refine (attachMetric agrees _ _ _).bind fun f g agrees => ?_
  rw [← agrees.model.graph]
  exact attachMetric agrees _ _ _

/-- The last metrics agree in findings that agree: they are computed from index, graph and
superclasses. -/
theorem measure (agrees : f.Agrees related g) :
    AgreesUnless related (Analysis.measure f) (Analysis.measure g) := by
  have complete : (f.withModel f.toModel.addTypes).Agrees related
      (g.withModel g.toModel.addTypes) := by
    obtain ⟨journal, report, rfl, reported⟩ := agrees.eq_with
    exact ⟨⟨rfl, rfl⟩, rfl, rfl, reported⟩
  have inheritance : (g.withModel g.toModel.addTypes).inheritance =
      (f.withModel f.toModel.addTypes).inheritance := by
    show Inheritance.ofRecords g.superclasses.toList = .ofRecords f.superclasses.toList
    rw [agrees.superclasses]
  unfold Analysis.measure
  dsimp only
  rw [inheritance]
  refine (attachDepths complete _).bind fun f g agrees => ?_
  refine (attachChildCounts agrees _).bind fun f g agrees => ?_
  exact (attachCouplings agrees).bind fun f g agrees => .ok (agrees.say _ _ _)

end AgreesUnless

/-- Runs whose findings agree conclude alike, with the same metrics or with the same error. -/
theorem Agrees.conclude (agrees : f.Agrees related g) :
    Matches related (Analysis.conclude f) (Analysis.conclude g) := by
  have measured := AgreesUnless.measure agrees
  unfold Analysis.conclude
  generalize Analysis.measure f = measured₁ at measured ⊢
  generalize Analysis.measure g = measured₂ at measured ⊢
  cases measured with
  | ok agrees₁ => exact ⟨rfl, agrees₁.say _ _ _⟩
  | error e => exact ⟨rfl, agrees⟩

/-- Every edit keeps the agreement and answers the same.  The issues that it records go into both
reports, and are of the kind that the relation lasts through. -/
theorem Edit.agrees (lasting : Report.Lasting issues related)
    (ordinary : ∀ i : Issue, i.isFailure = false → issues i) {change : Findings → α × Findings}
    (made : Edit issues α change) (agrees : f.Agrees related g) :
    Matches related (change f) (change g) := by
  cases made with
  | say level message => exact ⟨rfl, agrees.say _ _ _⟩
  | record allowed => exact ⟨rfl, agrees.record lasting allowed⟩
  | countFile =>
      exact ⟨rfl, ⟨agrees.model.index, agrees.model.graph⟩, agrees.config, agrees.superclasses,
        lasting.files agrees.report⟩
  | declareFact phase key kind parent =>
      exact agrees.declareFact lasting ordinary phase key kind parent
  | event? h d => exact ⟨congrArg (SourceScan.event? · h d) agrees.model.index, agrees⟩
  | resolveType key => exact agrees.resolveType key
  | openClass c type => exact ⟨rfl, agrees.openClass lasting ordinary c type⟩
  | addReference c r => exact ⟨rfl, (agrees.depend lasting ordinary _ _ _).2⟩
  | conclude => exact agrees.conclude

/-- Every effect keeps the agreement. -/
theorem Agrees.effects (agrees : f.Agrees related g) (effects : List Effect) :
    (effects.foldl Effect.apply f).Agrees related (effects.foldl Effect.apply g) := by
  induction effects generalizing f g with
  | nil => exact agrees
  | cons effect rest ih =>
      refine ih ?_
      obtain ⟨journal, report, rfl, reported⟩ := agrees.eq_with
      cases effect with
      | attach h name value =>
          unfold Effect.apply attachMeasure
          dsimp only
          cases f.index.attachTo h name value with
          | ok index => exact ⟨⟨rfl, rfl⟩, rfl, rfl, reported⟩
          | error e => exact ⟨⟨rfl, rfl⟩, rfl, rfl, reported⟩
      | superclass h above => exact ⟨⟨rfl, rfl⟩, rfl, rfl, reported⟩
      | say level message => exact ⟨⟨rfl, rfl⟩, rfl, rfl, reported⟩

end Findings

/-! ## Sessions -/

/-- The visitors of the analysis itself look at the index only, so equal indexes are answered
equally. -/
theorem Visitor.react_congr {v : Visitor σ} (own : v.isOwn = true) {f g : Findings}
    (same : f.index = g.index) (e : Event) : v.react g e = v.react f e := by
  have attached (h : Handle) (metric : Metric) (value : Measure) :
      Reaction.attachMetric g h metric value = Reaction.attachMetric f h metric value := by
    unfold Reaction.attachMetric Findings.attachMetric Findings.attachMeasure
    rw [same]
    cases g.index.attachTo h metric.name value <;> rfl
  cases v with
  | external v => cases own
  | response v =>
      unfold react ResponseVisitor.react
      rw [same]
      simp only [attached]
  | cohesion v =>
      unfold react CohesionVisitor.react
      simp only [attached]

/-- A session without external visitors. -/
def Session.IsOwn (s : Session σ) : Prop :=
  ∀ (n : Nat) (subscriber : Subscriber σ), s.roster[n]? = some subscriber →
    subscriber.visitor.isOwn = true

/-- A visitor that answers stays part of the analysis itself. -/
theorem Session.IsOwn.answered {s : Session σ} (own : s.IsOwn) {slot : Nat}
    {subscriber : Subscriber σ} (found : s.roster[slot]? = some subscriber) (f : Findings)
    (e : Event) : (s.answered slot e (subscriber.visitor.react f e)).IsOwn := by
  intro n subscriber' found'
  rw [Session.answered, Array.getElem?_modify] at found'
  split at found'
  · next here =>
      rw [← here, found] at found'
      cases found'
      exact (congrArg Badge.own (Roster.badge_react subscriber f e)).trans
        (own slot subscriber found)
  · exact own n subscriber' found'

/-- Two sessions without external visitors; they are the same, but for the journal and for their
reports, which are related. -/
structure Session.Abreast (related : Report → Report → Prop) (s t : Session σ) : Prop where
  findings : s.findings.Agrees related t.findings
  roster : t.roster = s.roster
  own : s.IsOwn

/-- A session without external visitors goes abreast with itself, if its report is related to
itself. -/
theorem Session.IsOwn.abreast {s : Session σ} (own : s.IsOwn)
    (holds : related s.findings.report s.findings.report) : s.Abreast related s :=
  ⟨⟨⟨rfl, rfl⟩, rfl, rfl, holds⟩, rfl, own⟩

/-- Two sessions abreast have the same roster, so neither has an external visitor. -/
theorem Session.Abreast.isOwn {s t : Session σ} (abreast : s.Abreast related t) : t.IsOwn := by
  unfold IsOwn
  rw [abreast.roster]
  exact abreast.own

namespace Scanning

open Session

/-- The answers are the same, and the sessions are abreast. -/
def Joined (related : Report → Report → Prop) (x y : Except RunError α × Session σ) : Prop :=
  x.1 = y.1 ∧ x.2.Abreast related y.2

/-- What holds of a run and a third one holds of any run that comes to the same as the third. -/
theorem Joined.of_eq {x y z : Except RunError α × Session σ} (joined : Joined related x z)
    (same : Joined Eq y z) : Joined related x y := by
  obtain ⟨answer, ⟨model, config, superclasses, report⟩, roster, own⟩ := joined
  obtain ⟨answer', ⟨model', config', superclasses', report'⟩, roster', -⟩ := same
  refine ⟨answer.trans answer'.symm, ⟨⟨?_, ?_⟩, ?_, ?_, report' ▸ report⟩, ?_, own⟩
  · exact model.index.trans model'.index.symm
  · exact model.graph.trans model'.graph.symm
  · exact config'.symm.trans config
  · exact superclasses'.symm.trans superclasses
  · exact roster'.symm.trans roster

/-- The computation keeps sessions abreast and answers the same in both. -/
def Parallel (related : Report → Report → Prop) (x : Scanning σ α) : Prop :=
  ∀ s t : Session σ, s.Abreast related t → Joined related (x.runOn s) (x.runOn t)

namespace Parallel

/-- Computations that keep sessions abreast can be put together.  The answers are the same, so both
sessions go on with the same computation. -/
theorem bind {x : Scanning σ α} {k : α → Scanning σ β} (first : Parallel related x)
    (rest : ∀ a, Parallel related (k a)) : Parallel related (x >>= k) := by
  intro s t abreast
  have joined := first s t abreast
  rcases run : x.runOn s with ⟨answer, s₁⟩
  rcases run' : x.runOn t with ⟨answer', t₁⟩
  rw [run, run'] at joined
  obtain ⟨rfl, abreast₁⟩ := joined
  cases answer with
  | error e =>
      rw [runOn_bind_of_error run, runOn_bind_of_error run']
      exact ⟨rfl, abreast₁⟩
  | ok a =>
      rw [runOn_bind_of_ok run, runOn_bind_of_ok run']
      exact rest a s₁ t₁ abreast₁

/-- One call keeps sessions abreast: the visitor sees findings that agree, and no visitor of the
analysis looks at the journal or at the report. -/
theorem call (e : Event) (n : Nat) : Parallel related (call e n : Scanning σ Unit) := by
  intro s t abreast
  cases found : s.roster[n]? with
  | none =>
      rw [runOn_call_of_none found, runOn_call_of_none (by rw [abreast.roster, found])]
      exact ⟨rfl, abreast⟩
  | some subscriber =>
      have found' : t.roster[n]? = some subscriber := by rw [abreast.roster, found]
      have own := abreast.own n subscriber found
      have reacts := Visitor.react_congr own abreast.findings.model.index e
      have answered : (s.answered n e (subscriber.visitor.react s.findings e)).Abreast related
          (t.answered n e (subscriber.visitor.react s.findings e)) := by
        refine ⟨abreast.findings.effects _, ?_, abreast.own.answered found s.findings e⟩
        rw [Session.answered, Session.answered, abreast.roster]
      cases answer : (subscriber.visitor.react s.findings e).2.failure with
      | none =>
          rw [runOn_call_of_quiet found answer, runOn_call_of_quiet found' (by rw [reacts, answer]),
            reacts]
          exact ⟨rfl, answered⟩
      | some reason =>
          rw [runOn_call_of_failure found answer,
            runOn_call_of_failure found' (by rw [reacts, answer]), reacts]
          exact ⟨rfl, answered.findings.say _ _ _, answered.roster, answered.own⟩

/-- Telling of an event keeps sessions abreast, one call after the other. -/
theorem dispatch (e : Event) : Parallel related (dispatch e : Scanning σ Unit) := by
  have calls (slots : List Nat) :
      Parallel related (slots.forM (Scanning.call e) : Scanning σ Unit) := by
    induction slots with
    | nil => exact fun s t abreast => ⟨rfl, abreast⟩
    | cons n rest ih => exact (call e n).bind fun _ => ih
  intro s t abreast
  rw [runOn_dispatch, runOn_dispatch, abreast.roster]
  exact calls _ s t abreast

end Parallel

/-- Whatever is made of edits and events keeps sessions abreast.  This covers both scans, since they
are made of nothing else. -/
theorem Made.parallel {x : Scanning σ α} (made : Made issues x)
    (lasting : Report.Lasting issues related)
    (ordinary : ∀ i : Issue, i.isFailure = false → issues i) : Parallel related x := by
  induction made with
  | pure a => exact fun s t abreast => ⟨rfl, abreast⟩
  | edit made =>
      intro s t abreast
      obtain ⟨same, agrees⟩ := made.agrees lasting ordinary abreast.findings
      rw [runOn_edit, runOn_edit, same]
      exact ⟨rfl, agrees, abreast.roster, abreast.own⟩
  | dispatch e => exact .dispatch e
  | throw error => exact fun s t abreast => ⟨rfl, abreast⟩
  | bind first rest ih ih' => exact ih.bind ih'

end Scanning

end CodeMetrics
