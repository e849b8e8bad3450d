import CodeMetrics.Proofs.Scan.Induction

/-!
# What visitors can do

A visitor sees the findings and answers with effects, and it may fail.  Its effects attach measures
to elements that are there, record superclasses and write to the journal; no element, no owner and
no dependency comes from a visitor.

A subscriber changes what it remembers and nothing else, so the roster keeps its `badges`: who is
subscribed, for what, and in which order.  A dispatch adds its calls to the transcript and carries
out the effects that stand there (`Session.Hears`).  It is stopped by a visitor that is not part of
the analysis itself, and by nothing else (`Session.Blames`).
-/

namespace CodeMetrics

variable {σ : Type}

/-! ## Effects -/

/-- Whether an effect records a superclass. -/
def Effect.recordsSuperclass : Effect → Bool
  | .superclass .. => true
  | _ => false

namespace Findings

variable {f : Findings}

/-- An attachment to an unknown element has no effect. -/
theorem attach_cases (f : Findings) (h : Handle) (name : String) (value : Measure) :
    f.index.Knows h ∧ Effect.apply f (.attach h name value) =
        { f with index := f.index.measured h name value } ∨
      Effect.apply f (.attach h name value) = f := by
  by_cases known : f.index.Knows h
  · exact .inl ⟨known, Effect.apply_attach known name value⟩
  · refine .inr ?_
    have refused : f.index.attachTo h name value = .error (.unknownHandle h) := if_neg known
    simp only [Effect.apply, attachMeasure, refused]
    rfl

/-- An effect that records no superclass changes measures at most. -/
theorem effect_remeasures {effect : Effect} (quiet : effect.recordsSuperclass = false) :
    f.Remeasures (effect.apply f) := by
  cases effect with
  | attach h name value =>
      rcases f.attach_cases h name value with ⟨known, attached⟩ | unknown
      · rw [attached]
        exact .measured f known name value
      · rw [unknown]
        exact .refl f
  | superclass h above => cases quiet
  | say level message => exact .say f level message

theorem effects_remeasure {effects : List Effect}
    (quiet : ∀ effect ∈ effects, effect.recordsSuperclass = false) :
    f.Remeasures (effects.foldl Effect.apply f) := by
  induction effects generalizing f with
  | nil => exact .refl f
  | cons effect rest ih =>
      obtain ⟨first, others⟩ := List.forall_mem_cons.mp quiet
      exact (effect_remeasures first).trans (ih others)

/-- An effect is a change of the model or none at all. -/
theorem effect_evolves (f : Findings) (effect : Effect) :
    f.toModel.Evolves (effect.apply f).toModel := by
  cases effect with
  | attach h name value => exact (effect_remeasures rfl).evolves
  | superclass h above => exact .of_alike ⟨rfl, rfl⟩
  | say level message => exact .of_alike ⟨rfl, rfl⟩

theorem effects_evolve (f : Findings) (effects : List Effect) :
    f.toModel.Evolves (effects.foldl Effect.apply f).toModel := by
  induction effects generalizing f with
  | nil => exact .refl _
  | cons effect rest ih => exact (f.effect_evolves effect).trans (ih (effect.apply f))

/-- Whatever an effect does, the index changes by changes of an index. -/
theorem effect_index_moves (f : Findings) (effect : Effect) :
    f.index.Moves (effect.apply f).index := by
  cases effect with
  | attach h name value => exact (effect_remeasures rfl).moves
  | superclass h above => exact .refl
  | say level message => exact .refl

/-- Effects move the index by attached measures, one at a time. -/
theorem effects_index_moves (f : Findings) (effects : List Effect) :
    f.index.Moves (effects.foldl Effect.apply f).index := by
  induction effects generalizing f with
  | nil => exact .refl
  | cons effect rest ih => exact (f.effect_index_moves effect).trans (ih (effect.apply f))

end Findings

/-! ## Badges -/

/-- What a subscriber is, whatever it remembers. -/
structure Badge where
  /-- Whether the visitor is part of the analysis itself. -/
  own : Bool
  name : String
  interests : List EventKind
  subscription : Subscription
deriving DecidableEq

/-- Whether a visitor is part of the analysis itself. -/
def Visitor.isOwn : Visitor σ → Bool
  | .response _ | .cohesion _ => true
  | .external _ => false

/-- The badge of a subscriber. -/
def Subscriber.badge (s : Subscriber σ) : Badge :=
  ⟨s.visitor.isOwn, s.visitor.name, s.visitor.interests, s.subscription⟩

/-- The badges of all subscribers, in order. -/
def Roster.badges (r : Roster σ) : List Badge := r.toList.map Subscriber.badge

/-- How often a subscriber with this badge is called for one event of one scan. -/
def Badge.calls (b : Badge) (phase : Phase) (kind : EventKind) : Nat :=
  if b.subscription.includes phase then b.interests.count kind else 0

/-- The positions that an event goes to. -/
def Badge.called (badges : List Badge) (phase : Phase) (kind : EventKind) : List Nat :=
  badges.zipIdx.flatMap fun (b, slot) => List.replicate (b.calls phase kind) slot

namespace Roster

variable {r : Roster σ} {slot : Nat}

/-- Who is called depends on the badges only. -/
theorem called_eq (r : Roster σ) (phase : Phase) (kind : EventKind) :
    r.called phase kind = Badge.called r.badges phase kind := by
  unfold called Badge.called badges
  rw [List.zipIdx_map, List.flatMap_map]
  rfl

theorem length_badges (r : Roster σ) : r.badges.length = r.size := by
  rw [badges, List.length_map, Array.length_toList]

/-- Only slots of the roster are called. -/
theorem lt_of_mem_called {phase : Phase} {kind : EventKind} (called : slot ∈ r.called phase kind) :
    slot < r.size := by
  rw [called_eq, Badge.called, List.mem_flatMap] at called
  obtain ⟨⟨b, n⟩, listed, repeated⟩ := called
  have inside := List.snd_lt_of_mem_zipIdx listed
  rw [(List.mem_replicate.mp repeated).2]
  rw [length_badges] at inside
  simpa using inside

theorem badge_of_getElem? {subscriber : Subscriber σ} (found : r[slot]? = some subscriber) :
    r.badges[slot]? = some subscriber.badge := by
  rw [badges, List.getElem?_map, Array.getElem?_toList, found]
  rfl

/-- A visitor that reacts keeps its badge. -/
theorem badge_react (subscriber : Subscriber σ) (f : Findings) (e : Event) :
    ({ subscriber with visitor := (subscriber.visitor.react f e).1 } : Subscriber σ).badge =
      subscriber.badge := by
  obtain ⟨visitor, subscription⟩ := subscriber
  cases visitor <;> rfl

/-- A reaction changes the state of a visitor, and not what it is subscribed to. -/
theorem badges_modify {subscriber : Subscriber σ} (found : r[slot]? = some subscriber)
    (f : Findings) (e : Event) :
    badges (r.modify slot fun entry =>
      { entry with visitor := (subscriber.visitor.react f e).1 }) = r.badges := by
  refine List.ext_getElem? fun n => ?_
  rw [badges, badges, List.getElem?_map, List.getElem?_map, Array.getElem?_toList,
    Array.getElem?_toList, Array.getElem?_modify]
  split
  · next same =>
      rw [← same, found]
      exact congrArg some (badge_react subscriber f e)
  · rfl

end Roster

/-! ## The visitors of the analysis itself -/

namespace Visitor

variable {v : Visitor σ} {f : Findings} {e : Event}

/-- Both visitors of the analysis itself answer with a metric or not at all. -/
theorem measuring_of_isOwn (own : v.isOwn = true) (f : Findings) (e : Event) :
    Reaction.Measuring f e (v.react f e).2 := by
  cases v with
  | external v => cases own
  | response v => exact v.measuring f e
  | cohesion v => exact v.measuring f e

/-- The visitors of the analysis itself attach measures to the type that is left.  As long as it is
known they do not fail. -/
theorem react_of_isOwn (own : v.isOwn = true)
    (known : ∀ visit, e = .leaveType visit → f.index.Knows visit.element) :
    (v.react f e).2.failure = none ∧
      ∀ effect ∈ (v.react f e).2.effects, effect.recordsSuperclass = false := by
  have measuring := measuring_of_isOwn own f e
  refine ⟨(measuring.remeasures known).1, ?_⟩
  generalize (v.react f e).2 = r at measuring
  cases measuring with
  | silence e => exact List.forall_mem_nil _
  | metric visit metric value =>
      rw [Reaction.attachMetric_of_knows (known visit rfl)]
      simp [Effect.recordsSuperclass]
  | announced visit level message metric value =>
      rw [Reaction.attachMetric_of_knows (known visit rfl)]
      simp [Effect.recordsSuperclass]

end Visitor

/-! ## Calls -/

/-- A call to a subscriber: one that is part of the analysis itself does not fail and records no
superclass. -/
def Callback.Proper (badges : List Badge) (call : Callback) : Prop :=
  ∃ badge, badges[call.slot]? = some badge ∧ (badge.own = true → call.reaction.failure = none ∧
    ∀ effect ∈ call.reaction.effects, effect.recordsSuperclass = false)

namespace Session

/-- The calls are added to the transcript, and the effects that stand there are carried out. -/
structure Hears (calls : List Callback) (s t : Session σ) : Prop where
  transcript : t.transcript.toList = s.transcript.toList ++ calls
  findings : t.findings = (calls.flatMap (·.reaction.effects)).foldl Effect.apply s.findings
  badges : t.roster.badges = s.roster.badges
  proper : ∀ call ∈ calls, call.Proper s.roster.badges

/-- The error is that of the last call, to a visitor that is not part of the analysis itself. -/
def Blames (badges : List Badge) (e : RunError) (s : Session σ) : Prop :=
  ∃ call badge reason, s.transcript.toList.getLast? = some call ∧
    badges[call.slot]? = some badge ∧ badge.own = false ∧ call.reaction.failure = some reason ∧
    e = .visitor badge.name call.event.phase call.event.kind reason

namespace Hears

variable {s t u : Session σ} {calls calls' : List Callback}

theorem refl (s : Session σ) : Hears [] s s where
  transcript := (List.append_nil _).symm
  findings := rfl
  badges := rfl
  proper := List.forall_mem_nil _

theorem trans (first : Hears calls s t) (second : Hears calls' t u) :
    Hears (calls ++ calls') s u where
  transcript := by rw [second.transcript, first.transcript, List.append_assoc]
  findings := by rw [second.findings, first.findings, List.flatMap_append, List.foldl_append]
  badges := second.badges.trans first.badges
  proper call listed := by
    rcases List.mem_append.mp listed with early | late
    · exact first.proper call early
    · rw [← first.badges]
      exact second.proper call late

theorem evolves (hears : Hears calls s t) : s.findings.toModel.Evolves t.findings.toModel := by
  rw [hears.findings]
  exact s.findings.effects_evolve _

theorem grows (hears : Hears calls s t) : s.findings.index.Grows t.findings.index := by
  rw [hears.findings]
  exact .of_moves (s.findings.effects_index_moves _)

/-- Calls without a recorded superclass change measures only. -/
theorem remeasures (hears : Hears calls s t)
    (silent : ∀ call ∈ calls, ∀ effect ∈ call.reaction.effects,
      effect.recordsSuperclass = false) : s.findings.Remeasures t.findings := by
  rw [hears.findings]
  refine Findings.effects_remeasure fun effect listed => ?_
  obtain ⟨call, told, answered⟩ := List.mem_flatMap.mp listed
  exact silent call told effect answered

end Hears

end Session

namespace Scanning

open Session

variable {s : Session σ} {e : Event}

/-- All calls were answered without a failure. -/
def Heard (s : Session σ) (_ : Unit) (t : Session σ) : Prop :=
  ∃ calls, Hears calls s t ∧ ∀ call ∈ calls, call.reaction.failure = none

/-- The last call has failed; the journal has a message about it. -/
def Broken (s : Session σ) (err : RunError) (t : Session σ) : Prop :=
  ∃ calls u message, Hears calls s u ∧
    t = { u with findings := u.findings.say .error message } ∧ Blames s.roster.badges err t

/-- One visitor is told of an event.  It answers, and its effects are carried out; if it fails, the
run is stopped and blames it.  A visitor of the analysis itself cannot fail, because the type that
is left is known. -/
theorem call_runs (slot : Nat)
    (known : ∀ visit, e = .leaveType visit → s.findings.index.Knows visit.element) :
    (call e slot).Runs s (Heard s) (Broken s) := by
  cases found : s.roster[slot]? with
  | none => exact .of_ok (runOn_call_of_none found) ⟨[], .refl s, List.forall_mem_nil _⟩
  | some subscriber =>
      have badge := Roster.badge_of_getElem? found
      have unfailing (own : subscriber.visitor.isOwn = true) := Visitor.react_of_isOwn own known
      have name := congrArg Badge.name (Roster.badge_react subscriber s.findings e)
      have hears : Hears [⟨slot, e, (subscriber.visitor.react s.findings e).2⟩] s
          (s.answered slot e (subscriber.visitor.react s.findings e)) := by
        refine ⟨Array.toList_push, ?_, Roster.badges_modify found s.findings e, ?_⟩
        · rw [List.flatMap_singleton]
          rfl
        · intro call listed
          rw [List.mem_singleton.mp listed]
          exact ⟨subscriber.badge, badge, unfailing⟩
      cases failure : (subscriber.visitor.react s.findings e).2.failure with
      | none =>
          refine .of_ok (runOn_call_of_quiet found failure) ⟨_, hears, fun call listed => ?_⟩
          rw [List.mem_singleton.mp listed]
          exact failure
      | some reason =>
          -- the visitors of the analysis do not fail, so it is none of them
          have foreign : subscriber.badge.own = false := by
            by_contra own
            rw [Bool.not_eq_false] at own
            have quiet := (unfailing own).1
            rw [failure] at quiet
            cases quiet
          have last := (congrArg List.getLast? hears.transcript).trans List.getLast?_concat
          refine .of_error (runOn_call_of_failure found failure) ⟨_, _, _, hears, rfl, ?_⟩
          exact ⟨_, subscriber.badge, reason, last, badge, foreign, failure, by rw [← name]; rfl⟩

/-- All subscribed visitors are told of an event, until one of them fails. -/
theorem dispatch_runs (e : Event)
    (known : ∀ visit, e = .leaveType visit → s.findings.index.Knows visit.element) :
    (dispatch e).Runs s (Heard s) (Broken s) := by
  unfold Runs
  rw [runOn_dispatch]
  refine Runs.forM (fun _ t => Heard s () t) _ ⟨[], .refl s, List.forall_mem_nil _⟩ ?_
  rintro - slot t ⟨calls, hears, quiet⟩
  have known' : ∀ visit, e = .leaveType visit → t.findings.index.Knows visit.element :=
    fun visit left => hears.grows.knows (known visit left)
  refine (call_runs slot known').mono ?_ ?_
  · rintro - u ⟨calls', hears', quiet'⟩
    refine ⟨calls ++ calls', hears.trans hears', fun call listed => ?_⟩
    exact (List.mem_append.mp listed).elim (quiet call) (quiet' call)
  · rintro err u ⟨calls', v, message, hears', rfl, blames⟩
    rw [hears.badges] at blames
    exact ⟨calls ++ calls', v, message, hears.trans hears', rfl, blames⟩

end Scanning

end CodeMetrics
