import CodeMetrics.Analysis
import CodeMetrics.Proofs.Scan.Deeds

/-!
# Runs with the analysis's own visitors

A scan stops when a visitor fails.  `Scanning.Ends` says that a computation does not stop: it gives
an answer and a session with some property.  It has one rule for each way in which computations are
put together, and the scans are read with these rules only.

Without external visitors every event goes to the two visitors of the analysis itself.  They are
told of nothing in the source scan.  In the bytecode scan they listen while a class is open, and
attach their measures when it is left; they fail only on an unknown element, which never happens.
-/

namespace CodeMetrics

/-- The session after a visitor has answered a call. -/
def Session.answered {σ : Type} (s : Session σ) (slot : Nat) (e : Event)
    (answer : Visitor σ × Reaction) : Session σ where
  findings := answer.2.effects.foldl Effect.apply s.findings
  roster := s.roster.modify slot fun entry => { entry with visitor := answer.1 }
  transcript := s.transcript.push ⟨slot, e, answer.2⟩

namespace Scanning

variable {σ α β : Type} {s t : Session σ}

/-! ## Computations that end -/

/-- The computation does not fail, and its answer and its session satisfy `post`. -/
def Ends (x : Scanning σ α) (s : Session σ) (post : α → Session σ → Prop) : Prop :=
  ∃ a t, x.runOn s = (.ok a, t) ∧ post a t

/-- A computation that ends hands its answer and its session to the next one. -/
theorem runOn_bind_of_ok {x : Scanning σ α} {k : α → Scanning σ β} {a : α}
    (first : x.runOn s = (.ok a, t)) : (x >>= k).runOn s = (k a).runOn t := by
  have run : (ExceptT.run x).run s = pure (.ok a, t) := first
  simp only [runOn, ExceptT.run_bind, StateT.run_bind, run, pure_bind]

/-- An edit gives the answer of its change and leaves the changed findings.  Roster and transcript
stay as they are. -/
theorem runOn_edit (change : Findings → α × Findings) :
    (edit change).runOn s =
      (.ok (change s.findings).1, { s with findings := (change s.findings).2 }) := rfl

theorem runOn_alter (change : Findings → Findings) :
    (alter change).runOn s = (.ok (), { s with findings := change s.findings }) := rfl

theorem runOn_get : (get : Scanning σ (Session σ)).runOn s = (.ok s, s) := rfl

/-- An event is told to the subscribers that are interested at the moment it occurs, one call after
the other. -/
theorem runOn_dispatch (e : Event) :
    (dispatch e).runOn s = ((s.roster.called e.phase e.kind).forM (call e)).runOn s :=
  runOn_bind_of_ok runOn_get

namespace Ends

variable {x : Scanning σ α} {post : α → Session σ → Prop}

theorem pure {a : α} (holds : post a s) : Ends (Pure.pure a) s post := ⟨a, s, rfl, holds⟩

/-- What holds at the end of a computation may be weakened. -/
theorem mono {post' : α → Session σ → Prop} (ends : x.Ends s post)
    (weaker : ∀ a t, post a t → post' a t) : x.Ends s post' := by
  obtain ⟨a, t, run, holds⟩ := ends
  exact ⟨a, t, run, weaker a t holds⟩

/-- Two things that hold at the end of one computation hold together, since the computation has only
one end. -/
theorem and {post' : α → Session σ → Prop} (ends : x.Ends s post) (ends' : x.Ends s post') :
    x.Ends s fun a t => post a t ∧ post' a t := by
  obtain ⟨a, t, run, holds⟩ := ends
  obtain ⟨a', t', run', holds'⟩ := ends'
  have same := run.symm.trans run'
  simp only [Prod.mk.injEq, Except.ok.injEq] at same
  obtain ⟨rfl, rfl⟩ := same
  exact ⟨a, t, run, holds, holds'⟩

/-- Two computations that end, one after the other: the second one starts from anything the first
one may leave. -/
theorem bind {k : α → Scanning σ β} {middle : α → Session σ → Prop}
    {post : β → Session σ → Prop} (first : x.Ends s middle)
    (rest : ∀ a t, middle a t → (k a).Ends t post) : (x >>= k).Ends s post := by
  obtain ⟨a, t, run, holds⟩ := first
  obtain ⟨b, u, run', holds'⟩ := rest a t holds
  exact ⟨b, u, (runOn_bind_of_ok run).trans run', holds'⟩

/-- A change of the findings ends, with the changed findings. -/
theorem alter {change : Findings → Findings} {post : Unit → Session σ → Prop}
    (holds : post () { s with findings := change s.findings }) :
    (Scanning.alter change).Ends s post :=
  ⟨_, _, runOn_alter change, holds⟩

/-- The findings are changed first. -/
theorem alter_bind {change : Findings → Findings} {k : Unit → Scanning σ α}
    (rest : (k ()).Ends { s with findings := change s.findings } post) :
    (Scanning.alter change >>= k).Ends s post := by
  obtain ⟨a, t, run, holds⟩ := rest
  exact ⟨a, t, (runOn_bind_of_ok (runOn_alter change)).trans run, holds⟩

/-- The findings are changed first, and the answer is used. -/
theorem edit_bind {change : Findings → β × Findings} {k : β → Scanning σ α}
    (rest : (k (change s.findings).1).Ends
      { s with findings := (change s.findings).2 } post) :
    (Scanning.edit change >>= k).Ends s post := by
  obtain ⟨a, t, run, holds⟩ := rest
  exact ⟨a, t, (runOn_bind_of_ok (runOn_edit change)).trans run, holds⟩

/-- The findings are read first. -/
theorem findings_bind {k : Findings → Scanning σ α} (rest : (k s.findings).Ends s post) :
    (Scanning.findings >>= k).Ends s post := by
  have first : Scanning.findings.runOn s = (.ok s.findings, s) := rfl
  obtain ⟨a, t, run, holds⟩ := rest
  exact ⟨a, t, (runOn_bind_of_ok first).trans run, holds⟩

/-- A loop ends if every round keeps an invariant of what is done so far.  The invariant sees the
items, the answer and the session. -/
theorem foldlM {step : β → α → Scanning σ β} {invariant : List α → β → Session σ → Prop}
    (l : List α) {b : β} (start : invariant [] b s)
    (round : ∀ done a b t, invariant done b t → (step b a).Ends t (invariant (done ++ [a]))) :
    (l.foldlM step b).Ends s (invariant l) := by
  suffices general : ∀ (rest done : List α) (b : β) (t : Session σ), invariant done b t →
      (rest.foldlM step b).Ends t (invariant (done ++ rest)) from general l [] b s start
  intro rest
  induction rest with
  | nil =>
      intro done b t holds
      rw [List.append_nil]
      exact .pure holds
  | cons a rest ih =>
      intro done b t holds
      rw [List.foldlM_cons, ← List.singleton_append, ← List.append_assoc]
      exact (round done a b t holds).bind fun b' u holds' => ih (done ++ [a]) b' u holds'

/-- A loop without an answer ends if every round keeps an invariant. -/
theorem forM {step : α → Scanning σ Unit} {invariant : Session σ → Prop} (l : List α)
    (start : invariant s) (round : ∀ a t, invariant t → (step a).Ends t fun _ u => invariant u) :
    (l.forM step).Ends s fun _ u => invariant u := by
  induction l generalizing s with
  | nil => exact .pure start
  | cons a rest ih => exact (round a s start).bind fun _ t holds => ih holds

end Ends

/-! ## Calls -/

section Answers

variable {s : Session σ} {e : Event} {n : Nat}

/-- A slot without a subscriber is passed over.  No such slot is ever called in a run; the case is
there because looking up a slot can fail. -/
theorem runOn_call_of_none (absent : s.roster[n]? = none) :
    (call e n).runOn s = (.ok (), s) := by
  unfold call
  rw [runOn_bind_of_ok runOn_get]
  simp only [absent]
  rfl

/-- A visitor answers without a failure. -/
theorem runOn_call_of_quiet {subscriber : Subscriber σ} (found : s.roster[n]? = some subscriber)
    (quiet : (subscriber.visitor.react s.findings e).2.failure = none) :
    (call e n).runOn s = (.ok (), s.answered n e (subscriber.visitor.react s.findings e)) := by
  unfold call
  rw [runOn_bind_of_ok runOn_get]
  simp only [found, quiet]
  rfl

/-- A visitor fails.  Its call stands in the transcript, its effects are carried out, and the
failure is reported in the journal. -/
theorem runOn_call_of_failure {subscriber : Subscriber σ} {reason : String}
    (found : s.roster[n]? = some subscriber)
    (failed : (subscriber.visitor.react s.findings e).2.failure = some reason) :
    (call e n).runOn s =
      (.error (.visitor (subscriber.visitor.react s.findings e).1.name e.phase e.kind reason),
        { s.answered n e (subscriber.visitor.react s.findings e) with
          findings := (s.answered n e (subscriber.visitor.react s.findings e)).findings.say .error
            (failureMessage (subscriber.visitor.react s.findings e).1.name e reason) }) := by
  unfold call
  rw [runOn_bind_of_ok runOn_get]
  simp only [found, failed]
  rfl

end Answers

/-- A visitor that does not fail is called, and its effects are carried out. -/
theorem call_ends {e : Event} {slot : Nat} {subscriber : Subscriber σ}
    (found : s.roster[slot]? = some subscriber)
    (quiet : (subscriber.visitor.react s.findings e).2.failure = none) :
    (call e slot).Ends s fun _ t =>
      t.findings =
          (subscriber.visitor.react s.findings e).2.effects.foldl Effect.apply s.findings ∧
        t.roster = s.roster.modify slot fun entry =>
          { entry with visitor := (subscriber.visitor.react s.findings e).1 } := by
  exact ⟨(), _, runOn_call_of_quiet found quiet, rfl, rfl⟩

/-- The roster without external visitors. -/
def own (response : ResponseVisitor) (cohesion : CohesionVisitor) : Roster σ :=
  #[⟨.response response, .bytecode⟩, ⟨.cohesion cohesion, .bytecode⟩]

/-- The two visitors of the analysis can be read off the roster that holds them. -/
theorem own_injective {response response' : ResponseVisitor} {cohesion cohesion' : CohesionVisitor}
    (same : (own response cohesion : Roster σ) = own response' cohesion') :
    response = response' ∧ cohesion = cohesion' := by
  simpa [own] using same

/-- Without external visitors, the two visitors of the analysis are called in their order, for every
event of the bytecode scan but its end, and for no event of the source scan. -/
theorem called_own (response : ResponseVisitor) (cohesion : CohesionVisitor) (phase : Phase)
    (kind : EventKind) :
    (own response cohesion : Roster σ).called phase kind =
      if phase = .bytecode ∧ kind ≠ .endScan then [0, 1] else [] := by
  cases phase <;> cases kind <;> rfl

variable {response : ResponseVisitor} {cohesion : CohesionVisitor} {e : Event}

/-- The visitors are told of nothing in the source scan and at the end of a scan. -/
theorem dispatch_silent (roster : s.roster = own response cohesion)
    (silent : e.phase = .source ∨ e.kind = .endScan) : (dispatch e).Ends s fun _ t => t = s := by
  refine ⟨(), s, ?_, rfl⟩
  have nobody : s.roster.called e.phase e.kind = [] := by
    rw [roster, called_own, if_neg]
    rintro ⟨bytecode, listening⟩
    rcases silent with source | ended
    · rw [source] at bytecode
      cases bytecode
    · exact listening ended
  rw [runOn_dispatch, nobody]
  rfl

/-- In the bytecode scan the response visitor is called first, then the cohesion visitor, which sees
the findings as the first one has left them. -/
theorem dispatch_own (roster : s.roster = own response cohesion) (phase : e.phase = .bytecode)
    (kind : e.kind ≠ .endScan) {f : Findings}
    (effects : (response.react s.findings e).2.effects.foldl Effect.apply s.findings = f)
    (quiet : (response.react s.findings e).2.failure = none)
    (quiet' : (cohesion.react f e).2.failure = none) :
    (dispatch e).Ends s fun _ t =>
      t.findings = (cohesion.react f e).2.effects.foldl Effect.apply f ∧
        t.roster = own (response.react s.findings e).1 (cohesion.react f e).1 := by
  have both : s.roster.called e.phase e.kind = [0, 1] := by
    rw [roster, called_own, if_pos ⟨phase, kind⟩]
  have two : (dispatch e).runOn s =
      (call e 0 >>= fun _ => call e 1 >>= fun _ => pure ()).runOn s := by
    rw [runOn_dispatch, both]
    rfl
  have found : s.roster[0]? = some ⟨.response response, .bytecode⟩ := by rw [roster]; rfl
  obtain ⟨⟨⟩, t, run, findings, roster'⟩ := call_ends (e := e) found quiet
  have findings : t.findings = f := findings.trans effects
  have roster' : t.roster = own (response.react s.findings e).1 cohesion := by
    rw [roster', roster]
    rfl
  have found' : t.roster[1]? = some ⟨.cohesion cohesion, .bytecode⟩ := by rw [roster']; rfl
  have quiet'' : (Visitor.react (σ := σ) (.cohesion cohesion) t.findings e).2.failure = none := by
    rw [findings]
    exact quiet'
  obtain ⟨⟨⟩, u, run', findings', roster''⟩ := call_ends (e := e) found' quiet''
  refine ⟨(), u, ?_, ?_, ?_⟩
  · rw [two, runOn_bind_of_ok run, runOn_bind_of_ok run']
    rfl
  · rw [findings', findings]
    rfl
  · rw [roster'', roster', findings]
    rfl

/-! ## The visitors while a class is open -/

end Scanning

/-- The response set after a mention. -/
def respond (methods : List String) : Mention → List String
  | .method key => methods.insert key
  | .reference u =>
    match u.reference with
    | .call _ => methods.insert u.reference.target
    | .access _ => methods

/-- The cohesion graph after a mention. -/
def cohere (excluded : String → Bool) (c : OpenCohesion) : Mention → OpenCohesion
  | .method key => { c with graph := c.graph.addNode key }
  | .reference u =>
    if u.reference.owner = c.key then c.refer excluded u.method u.reference else c

/-- Whatever is mentioned, the cohesion under way stays that of the same type. -/
theorem type_cohere (excluded : String → Bool) (c : OpenCohesion) (m : Mention) :
    (cohere excluded c m).type = c.type := by
  cases m with
  | method key => rfl
  | reference u =>
      rw [cohere]
      split
      · cases u.reference with
        | call call => rfl
        | access a =>
            rw [OpenCohesion.refer]
            split <;> rfl
      · rfl

/-- However much is mentioned, the cohesion under way stays that of the same type. -/
theorem type_foldl_cohere (excluded : String → Bool) (c : OpenCohesion) (ms : List Mention) :
    (ms.foldl (cohere excluded) c).type = c.type := by
  induction ms generalizing c with
  | nil => rfl
  | cons m rest ih => rw [List.foldl_cons, ih, type_cohere]

/-- The answers that the visitors of the analysis itself give: none, or a metric of the type that is
left, perhaps with a message before it.  What they can do to the findings is read off this, and not
off their definitions. -/
inductive Reaction.Measuring (f : Findings) : Event → Reaction → Prop where
  | silence (e : Event) : Measuring f e .none
  | metric (visit : TypeVisit) (metric : Metric) (value : Measure) :
      Measuring f (.leaveType visit) (.attachMetric f visit.element metric value)
  | announced (visit : TypeVisit) (level : Level) (message : String) (metric : Metric)
      (value : Measure) :
      Measuring f (.leaveType visit)
        { Reaction.attachMetric f visit.element metric value with
          effects := .say level message ::
            (Reaction.attachMetric f visit.element metric value).effects }

/-- Nothing is answered before a class is left. -/
theorem Reaction.Measuring.eq_none {f : Findings} {e : Event} {r : Reaction}
    (measuring : Measuring f e r) (staying : e.kind ≠ .leaveType) : r = .none := by
  cases measuring with
  | silence e => rfl
  | metric visit metric value => exact absurd rfl staying
  | announced visit level message metric value => exact absurd rfl staying

/-- The response visitor attaches the size of its set, if it is the one of the class. -/
theorem ResponseVisitor.measuring (v : ResponseVisitor) (f : Findings) (e : Event) :
    Reaction.Measuring f e (v.react f e).2 := by
  cases e with
  | type visit => simp only [react]; split <;> exact .silence _
  | method visit => exact .silence _
  | reference visit => simp only [react]; split <;> exact .silence _
  | leaveType visit =>
      simp only [react]
      split
      · split
        · exact .metric ..
        · exact .silence _
      · exact .silence _
  | endScan phase => exact .silence _

/-- The cohesion visitor attaches the number of components, if the graph is the one of the class,
and says so. -/
theorem CohesionVisitor.measuring (v : CohesionVisitor) (f : Findings) (e : Event) :
    Reaction.Measuring f e (v.react f e).2 := by
  cases e with
  | type visit => simp only [react]; split <;> exact .silence _
  | method visit => exact .silence _
  | reference visit => exact .silence _
  | leaveType visit =>
      simp only [react]
      split
      · exact .silence _
      · split
        · exact .announced ..
        · exact .silence _
  | endScan phase => exact .silence _

/-- The response visitor after it was told of some mentions. -/
def ResponseVisitor.at (type : Handle) (methods : List String) (ms : List Mention) :
    ResponseVisitor :=
  ⟨some ⟨type, ms.foldl respond methods⟩⟩

/-- The cohesion visitor after it was told of some mentions. -/
def CohesionVisitor.at (v : CohesionVisitor) (c : OpenCohesion) (ms : List Mention) :
    CohesionVisitor :=
  { v with current := some (ms.foldl (cohere v.excludes) c) }

namespace Scanning

variable {σ : Type} {s : Session σ} {response : ResponseVisitor} {cohesion : CohesionVisitor}

/-- A session without external visitors, whose cohesion visitor excludes the configured fields. -/
def Private (s : Session σ) : Prop :=
  ∃ response cohesion, s.roster = own response cohesion ∧
    cohesion.excluded = s.findings.config.excludedFields

/-- A change of the findings that keeps the configuration adds no visitor. -/
theorem Private.alter (own : Private s) {f : Findings} (config : f.config = s.findings.config) :
    Private { s with findings := f } := by
  obtain ⟨rv, cv, roster, excluded⟩ := own
  exact ⟨rv, cv, roster, excluded.trans (congrArg Config.excludedFields config.symm)⟩

/-- Events other than leaving a class change the visitors only.  Both take something up, and neither
attaches anything. -/
theorem dispatch_listening {e : Event} (roster : s.roster = own response cohesion)
    (phase : e.phase = .bytecode) (listening : e.kind ≠ .endScan) (staying : e.kind ≠ .leaveType) :
    (dispatch e).Ends s fun _ t => t.findings = s.findings ∧
      t.roster = own (response.react s.findings e).1 (cohesion.react s.findings e).1 := by
  have silent := (response.measuring s.findings e).eq_none staying
  have silent' := (cohesion.measuring s.findings e).eq_none staying
  have ends := dispatch_own (f := s.findings) roster phase listening
    (by rw [silent]; rfl) (by rw [silent]; rfl) (by rw [silent']; rfl)
  refine ends.mono ?_
  rintro - t ⟨findings, roster'⟩
  refine ⟨?_, roster'⟩
  rw [findings, silent']
  rfl

/-! ### What the visitors remember -/

section React

variable (f : Findings) (type : Handle) (methods : List String) (ms : List Mention)

/-- Entering a class starts its response set with the methods that are known of it by then, those
from source files included. -/
theorem response_react_type {visit : TypeVisit} (phase : visit.phase = .bytecode) :
    (response.react f (.type visit)).1 =
      .at visit.element ((f.index.members visit.key .method).map Element.key).eraseDups [] := by
  simp only [ResponseVisitor.react, phase, if_true]
  rfl

/-- Entering a class starts its cohesion, with the fields that it declares. -/
theorem cohesion_react_type {visit : TypeVisit} (phase : visit.phase = .bytecode) :
    (cohesion.react f (.type visit)).1 = cohesion.at (cohesion.enter visit) [] := by
  simp only [CohesionVisitor.react, phase, if_true]
  rfl

/-- A method of the open class is mentioned to the response set under way. -/
theorem response_react_method {visit : MethodVisit} (phase : visit.phase = .bytecode)
    (owner : visit.owner = some type) :
    ((ResponseVisitor.at type methods ms).react f (.method visit)).1 =
      .at type methods (ms ++ [.method visit.key]) := by
  simp [ResponseVisitor.react, ResponseVisitor.at, ResponseVisitor.add, phase, owner,
    ResponseSet.insert, respond]

/-- A method of the open class is mentioned to the cohesion under way. -/
theorem cohesion_react_method {c : OpenCohesion} {visit : MethodVisit}
    (phase : visit.phase = .bytecode) (owner : visit.owner = some c.type) :
    ((cohesion.at c ms).react f (.method visit)).1 =
      cohesion.at c (ms ++ [.method visit.key]) := by
  simp [CohesionVisitor.react, CohesionVisitor.at, phase, owner, type_foldl_cohere, cohere]

/-- A reference from the open class is mentioned to the response set under way, whatever it refers
to. -/
theorem response_react_reference {visit : ReferenceVisit} (element : visit.element = type) :
    ((ResponseVisitor.at type methods ms).react f (.reference visit)).1 =
      .at type methods (ms ++ [.reference ⟨visit.typeKey, visit.methodKey, visit.reference⟩]) := by
  cases reference : visit.reference <;>
    simp [ResponseVisitor.react, ResponseVisitor.at, ResponseVisitor.add, element, reference,
      ResponseSet.insert, respond]

/-- A reference from the open class is mentioned to the cohesion under way.  Whether it links
anything is decided when the mention is taken up. -/
theorem cohesion_react_reference {c : OpenCohesion} {visit : ReferenceVisit}
    (element : visit.element = c.type) :
    ((cohesion.at c ms).react f (.reference visit)).1 =
      cohesion.at c
        (ms ++ [.reference ⟨visit.typeKey, visit.methodKey, visit.reference⟩]) := by
  simp only [CohesionVisitor.react, CohesionVisitor.at, Option.map_some, element,
    type_foldl_cohere, true_and, List.foldl_append, List.foldl_cons, List.foldl_nil, cohere]
  rfl

/-- The names of excluded fields never change. -/
theorem excluded_react (cohesion : CohesionVisitor) (f : Findings) (e : Event) :
    (cohesion.react f e).1.excluded = cohesion.excluded := by
  cases e with
  | type visit => simp only [CohesionVisitor.react]; split <;> rfl
  | method visit => rfl
  | reference visit => rfl
  | leaveType visit =>
      simp only [CohesionVisitor.react]
      split
      · rfl
      · split <;> rfl
  | endScan phase => rfl

end React

end Scanning

/-! ## Leaving a class -/

namespace Findings

variable {f f' f'' : Findings}

/-- Nothing but measures and the journal has changed. -/
structure Remeasures (f f' : Findings) : Prop where
  moves : f.index.Moves f'.index
  evolves : f.toModel.Evolves f'.toModel
  keys : ∀ h, f'.index.key? h = f.index.key? h
  kinds : ∀ h, f'.index.kind? h = f.index.kind? h
  parents : ∀ h, f'.index.parent? h = f.index.parent? h
  listed : ∀ kind, f'.index.handlesOf kind = f.index.handlesOf kind
  graph : f'.graph = f.graph
  superclasses : f'.superclasses = f.superclasses
  config : f'.config = f.config
  report : f'.report = f.report

namespace Remeasures

theorem refl (f : Findings) : f.Remeasures f :=
  ⟨.refl, .refl _, fun _ => rfl, fun _ => rfl, fun _ => rfl, fun _ => rfl, rfl, rfl, rfl, rfl⟩

/-- Changes of measures, one after the other, are a change of measures. -/
theorem trans (first : f.Remeasures f') (second : f'.Remeasures f'') : f.Remeasures f'' where
  moves := first.moves.trans second.moves
  evolves := first.evolves.trans second.evolves
  keys h := (second.keys h).trans (first.keys h)
  kinds h := (second.kinds h).trans (first.kinds h)
  parents h := (second.parents h).trans (first.parents h)
  listed kind := (second.listed kind).trans (first.listed kind)
  graph := second.graph.trans first.graph
  superclasses := second.superclasses.trans first.superclasses
  config := second.config.trans first.config
  report := second.report.trans first.report

/-- A message changes no measure, and nothing else that is looked at here. -/
theorem say (f : Findings) (level : Level) (message : String) :
    f.Remeasures (f.say level message) :=
  ⟨.refl, .of_alike ⟨rfl, rfl⟩, fun _ => rfl, fun _ => rfl, fun _ => rfl, fun _ => rfl, rfl, rfl,
    rfl, rfl⟩

/-- Attaching a measure to a known element changes measures only. -/
theorem measured (f : Findings) {h : Handle} (known : f.index.Knows h) (name : String)
    (value : Measure) : f.Remeasures { f with index := f.index.measured h name value } where
  moves := .single (.attach known)
  evolves := by
    refine .single (.attachTo h name value) rfl ?_
    simp only [Model.apply, Model.attachTo, Index.attachTo_of_knows known]
    exact ⟨rfl, rfl⟩
  keys := by simp
  kinds := by simp
  parents := by simp
  listed := by simp
  graph := rfl
  superclasses := rfl
  config := rfl
  report := rfl

/-- An index whose measures change grows: keys, kinds and owners are what they were. -/
theorem grows (remeasures : f.Remeasures f') : f.index.Grows f'.index :=
  .of_moves remeasures.moves

theorem knows (remeasures : f.Remeasures f') {h : Handle} (known : f.index.Knows h) :
    f'.index.Knows h :=
  remeasures.grows.knows known

/-- Changes of measures keep findings steady, because no invariant is about measures. -/
theorem steady (remeasures : f.Remeasures f') (steady : f.Steady) : f'.Steady where
  index := steady.index.moves remeasures.moves
  graph := remeasures.graph ▸ steady.graph
  founded := remeasures.graph ▸ steady.founded.grows remeasures.grows

/-- Changes of measures leave the edges as they are, also when their ends are named by keys. -/
theorem keyedEdges (remeasures : f.Remeasures f') :
    f'.graph.keyedEdges f'.index = f.graph.keyedEdges f.index := by
  have keys : f'.index.key? = f.index.key? := funext remeasures.keys
  rw [remeasures.graph, Graph.keyedEdges_eq, Graph.keyedEdges_eq]
  unfold Edge.keyed?
  rw [keys]

/-- Findings go on tracking the same deeds while measures change. -/
theorem tracks (remeasures : f.Remeasures f') {project : String} {ds : List Deed}
    (tracks : f.Tracks project ds) : f'.Tracks project ds := by
  have keys : f'.index.key? = f.index.key? := funext remeasures.keys
  unfold Tracks Disputed at tracks ⊢
  rw [remeasures.report]
  refine tracks.imp_right (And.imp_right fun reflects => ⟨?_, ?_, ?_⟩)
  · exact reflects.records.reshape remeasures.keys remeasures.kinds remeasures.parents
  · rw [remeasures.keyedEdges, reflects.edges]
  · rw [remeasures.config, ← reflects.project, Index.projectKey?, Index.projectKey?,
      remeasures.listed, keys]

end Remeasures

/-- A metric can be attached to every known element. -/
theorem attachMetric_of_knows {h : Handle} (known : f.index.Knows h) (metric : Metric)
    (value : Measure) :
    f.attachMetric h metric value =
      .ok { f with index := f.index.measured h metric.name value } := by
  rw [attachMetric, attachMeasure, Index.attachTo_of_knows known]
  rfl

end Findings

/-- The reaction that attaches a metric to a known element has this one effect and does not fail. -/
theorem Reaction.attachMetric_of_knows {f : Findings} {h : Handle} (known : f.index.Knows h)
    (metric : Metric) (value : Measure) :
    Reaction.attachMetric f h metric value = { effects := [.attach h metric.name value] } := by
  rw [attachMetric, Findings.attachMetric_of_knows known]

/-- The effect that attaches a measure to a known element does just that.  At an unknown handle it
would be lost. -/
theorem Effect.apply_attach {f : Findings} {h : Handle} (known : f.index.Knows h) (name : String)
    (value : Measure) :
    Effect.apply f (.attach h name value) =
      { f with index := f.index.measured h name value } := by
  rw [apply, Findings.attachMeasure, Index.attachTo_of_knows known]
  rfl

/-- As long as the type that is left is known, the answer is no failure, and its effects change
measures only. -/
theorem Reaction.Measuring.remeasures {f : Findings} {e : Event} {r : Reaction}
    (measuring : Measuring f e r)
    (known : ∀ visit, e = .leaveType visit → f.index.Knows visit.element) :
    r.failure = .none ∧ f.Remeasures (r.effects.foldl Effect.apply f) := by
  cases measuring with
  | silence e => exact ⟨rfl, .refl f⟩
  | metric visit metric value =>
      have known := known visit rfl
      rw [attachMetric_of_knows known, List.foldl_cons, Effect.apply_attach known]
      exact ⟨rfl, .measured f known _ _⟩
  | announced visit level message metric value =>
      have said : f.Remeasures (Effect.apply f (.say level message)) := .say f level message
      have known := known visit rfl
      rw [attachMetric_of_knows known, List.foldl_cons, List.foldl_cons,
        Effect.apply_attach (said.knows known)]
      exact ⟨rfl, said.trans (.measured _ (said.knows known) _ _)⟩

namespace Scanning

variable {σ : Type} {s : Session σ} {response : ResponseVisitor} {cohesion : CohesionVisitor}
  {visit : TypeVisit}

/-- When a class is left, nothing but its measures changes, and both visitors are still the only
ones. -/
theorem dispatch_leave (roster : s.roster = own response cohesion)
    (phase : visit.phase = .bytecode) (known : s.findings.index.Knows visit.element) :
    (dispatch (.leaveType visit)).Ends s fun _ t =>
      s.findings.Remeasures t.findings ∧
        ∃ response' cohesion', t.roster = own response' cohesion' ∧
          cohesion'.excluded = cohesion.excluded := by
  have bytecode : (Event.leaveType visit).phase = .bytecode := phase
  have listening : (Event.leaveType visit).kind ≠ .endScan := by
    intro impossible
    cases impossible
  obtain ⟨quiet, first⟩ := (response.measuring s.findings (.leaveType visit)).remeasures
    (by rintro visit ⟨⟩; exact known)
  obtain ⟨quiet', second⟩ := (cohesion.measuring _ (.leaveType visit)).remeasures
    (by rintro visit ⟨⟩; exact first.knows known)
  refine (dispatch_own roster bytecode listening rfl quiet quiet').mono ?_
  rintro - t ⟨findings, roster'⟩
  refine ⟨?_, _, _, roster', excluded_react _ _ _⟩
  rw [findings]
  exact first.trans second

/-- The visitors of a class attach what they have found, and are ready for the next class.  Two
measures are attached to its type, and nothing to any other element. -/
theorem dispatch_leave_at {type : Handle} {methods : List String} {c : OpenCohesion}
    {ms : List Mention} (roster : s.roster = own (.at type methods ms) (cohesion.at c ms))
    (phase : visit.phase = .bytecode) (known : s.findings.index.Knows type)
    (element : visit.element = type) (of : c.type = type) :
    (dispatch (.leaveType visit)).Ends s fun _ t => ∀ g, t.findings.index.measuresOf g =
      if g = type then
        ((s.findings.index.measuresOf type).insert Metric.rfc.name
          (.ofCount (ms.foldl respond methods).length)).insert Metric.lcom4.name
            (.ofCount (ms.foldl (cohere cohesion.excludes) c).complete.components.length)
      else s.findings.index.measuresOf g := by
  have bytecode : (Event.leaveType visit).phase = .bytecode := phase
  have listening : (Event.leaveType visit).kind ≠ .endScan := by
    intro impossible
    cases impossible
  -- the two values, and the findings between the two visitors
  generalize responses : (Measure.ofCount (ms.foldl respond methods).length) = rfc
  generalize components : (ms.foldl (cohere cohesion.excludes) c).complete.components.length = count
  have reacted : (ResponseVisitor.at type methods ms).react s.findings (.leaveType visit) =
      (⟨none⟩, { effects := [.attach type Metric.rfc.name rfc] }) := by
    simp only [ResponseVisitor.react, ResponseVisitor.at, element, if_true, responses]
    rw [Reaction.attachMetric_of_knows known]
  let between : Findings :=
    { s.findings with index := s.findings.index.measured type Metric.rfc.name rfc }
  have knownThen : between.index.Knows type :=
    (Findings.Remeasures.measured s.findings known Metric.rfc.name rfc).knows known
  have reacted' : ((cohesion.at c ms).react between (.leaveType visit)).2 =
      { effects := [CohesionVisitor.note visit.key count,
        .attach type Metric.lcom4.name (.ofCount count)] } := by
    have same : (ms.foldl (cohere cohesion.excludes) c).type = visit.element := by
      rw [type_foldl_cohere, of, element]
    simp only [CohesionVisitor.react, CohesionVisitor.at, same, if_true, components]
    rw [element, Reaction.attachMetric_of_knows knownThen]
  have ends := dispatch_own (f := between) roster bytecode listening
    (by rw [reacted, List.foldl_cons, Effect.apply_attach known]; rfl) (by rw [reacted])
    (by rw [reacted'])
  refine ends.mono ?_
  rintro - t ⟨findings, -⟩ g
  have said : between.Remeasures (Effect.apply between (CohesionVisitor.note visit.key count)) :=
    .say between _ _
  have index :
      t.findings.index = between.index.measured type Metric.lcom4.name (.ofCount count) := by
    rw [findings, reacted', List.foldl_cons, List.foldl_cons,
      Effect.apply_attach (said.knows knownThen)]
    rfl
  rw [index]
  by_cases self : g = type
  · subst self
    have first : between.index.measuresOf g =
        (s.findings.index.measuresOf g).insert Metric.rfc.name rfc :=
      Index.measuresOf_measured_self _ _ _ _ known
    rw [if_pos rfl, Index.measuresOf_measured_self _ _ _ _ knownThen, first]
  · rw [if_neg self, Index.measuresOf_measured_of_ne _ _ _ _ _ self]
    exact Index.measuresOf_measured_of_ne _ _ _ _ _ self

end Scanning

end CodeMetrics
