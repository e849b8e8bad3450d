import CodeMetrics.Proofs.Scan.Anatomy
import CodeMetrics.Proofs.Scan.Safety

/-!
# A failing visitor ends the run

A visitor that fails ends the run with its call.  The run is compared with the one in which the same
visitor keeps its failures to itself: until the first failure the two do the same, call by call, and
the second one goes on from there.

`Scanning.Lockstep` is this comparison for a computation.  It holds of a call by inspection, and it
is handed on to whatever is made of edits and events.  For the second run to have the calls of the
first one *as a prefix*, computations may only lengthen the transcript (`Scanning.Lengthens`).
-/

namespace CodeMetrics

variable {σ α β : Type}

/-! ## Visitors that keep their failures to themselves -/

/-- The same answer without a failure. -/
def Reaction.forgiven (r : Reaction) : Reaction := { r with failure := Option.none }

/-- The same call, answered without a failure. -/
def Callback.forgiven (call : Callback) : Callback :=
  { call with reaction := call.reaction.forgiven }

/-- The same visitor, but it never fails. -/
def External.unfailing (v : External σ) : External σ :=
  { v with react := fun memory f e =>
      ((v.react memory f e).1, (v.react memory f e).2.forgiven) }

/-- An external visitor that never fails.  The visitors of the analysis itself stay as they are. -/
def Visitor.unfailing : Visitor σ → Visitor σ
  | .external v => .external v.unfailing
  | v => v

/-- A subscriber that never fails. -/
def Subscriber.unfailing (s : Subscriber σ) : Subscriber σ :=
  { s with visitor := s.visitor.unfailing }

/-- The session in which the visitor of one slot never fails. -/
def Session.forgive (s : Session σ) (slot : Nat) : Session σ :=
  { s with roster := s.roster.modify slot Subscriber.unfailing }

/-- A reaction without a failure has nothing to be forgiven. -/
theorem Reaction.forgiven_of_none {r : Reaction} (quiet : r.failure = Option.none) :
    r.forgiven = r := by
  obtain ⟨effects, observations, failure⟩ := r
  cases quiet
  rfl

/-- A visitor that keeps its failures to itself answers as before, up to the failure, and remembers
the same. -/
theorem Visitor.react_unfailing {v : Visitor σ} (foreign : v.isOwn = false) (f : Findings)
    (e : Event) :
    v.unfailing.react f e = ((v.react f e).1.unfailing, (v.react f e).2.forgiven) := by
  cases v with
  | external v => rfl
  | response v => cases foreign
  | cohesion v => cases foreign

/-- From outside, a visitor that keeps its failures to itself looks the same: its name, its
interests and its subscription. -/
theorem Subscriber.badge_unfailing (s : Subscriber σ) : s.unfailing.badge = s.badge := by
  obtain ⟨visitor, subscription⟩ := s
  cases visitor <;> rfl

namespace Session

variable {s : Session σ} {slot : Nat}

/-- Replacing a visitor by its unfailing version changes no badge. -/
theorem badges_forgive (s : Session σ) (slot : Nat) :
    (s.forgive slot).roster.badges = s.roster.badges := by
  refine List.ext_getElem? fun n => ?_
  rw [forgive, Roster.badges, Roster.badges, List.getElem?_map, List.getElem?_map,
    Array.getElem?_toList, Array.getElem?_toList, Array.getElem?_modify]
  split
  · rw [Option.map_map]
    exact congrArg (Option.map · _) (funext Subscriber.badge_unfailing)
  · rfl

/-- The same visitors are called. -/
theorem called_forgive (s : Session σ) (slot : Nat) (phase : Phase) (kind : EventKind) :
    (s.forgive slot).roster.called phase kind = s.roster.called phase kind := by
  rw [Roster.called_eq, Roster.called_eq, badges_forgive]

/-- Nobody has failed so far, and the visitor of the slot is external. -/
structure Ready (slot : Nat) (s : Session σ) : Prop where
  flawless : ∀ call ∈ s.transcript.toList, call.reaction.failure = none
  foreign : ∀ subscriber, s.roster[slot]? = some subscriber → subscriber.visitor.isOwn = false

/-- An answer without a failure leaves no failure in the transcript. -/
theorem flawless_answered {n : Nat} {e : Event} {answer : Visitor σ × Reaction}
    (flawless : ∀ call ∈ s.transcript.toList, call.reaction.failure = none)
    (quiet : answer.2.failure = none) :
    ∀ call ∈ (s.answered n e answer).transcript.toList, call.reaction.failure = none := by
  intro call listed
  rw [answered, Array.toList_push, List.mem_append, List.mem_singleton] at listed
  rcases listed with early | rfl
  · exact flawless call early
  · exact quiet

/-- An answer at another slot can as well be given after the visitor was forgiven. -/
theorem answered_forgive_of_ne {n : Nat} (other : n ≠ slot) (e : Event)
    (answer : Visitor σ × Reaction) :
    (s.forgive slot).answered n e answer = (s.answered n e answer).forgive slot := by
  have commute : (s.roster.modify slot Subscriber.unfailing).modify n
        (fun entry => { entry with visitor := answer.1 }) =
      (s.roster.modify n fun entry => { entry with visitor := answer.1 }).modify slot
        Subscriber.unfailing := by
    refine Array.ext_getElem? fun i => ?_
    simp only [Array.getElem?_modify]
    split
    · next at_n =>
        rw [if_neg (fun at_slot => other (at_n.trans at_slot.symm)),
          if_neg (fun at_slot => other (at_n.trans at_slot.symm))]
    · rfl
  unfold answered forgive
  rw [commute]

/-- A forgiven visitor answers like the visitor, forgiven.  As long as its answers have no failure,
nothing is left out of them. -/
theorem answered_forgive (e : Event) (visitor : Visitor σ) {reaction : Reaction}
    (quiet : reaction.failure = none) :
    (s.forgive slot).answered slot e (visitor.unfailing, reaction.forgiven) =
      (s.answered slot e (visitor, reaction)).forgive slot := by
  have commute : (s.roster.modify slot Subscriber.unfailing).modify slot
        (fun entry => { entry with visitor := visitor.unfailing }) =
      (s.roster.modify slot fun entry => { entry with visitor := visitor }).modify slot
        Subscriber.unfailing := by
    refine Array.ext_getElem? fun i => ?_
    simp only [Array.getElem?_modify]
    split
    · rw [Option.map_map, Option.map_map]
      rfl
    · rfl
  rw [Reaction.forgiven_of_none quiet]
  unfold answered forgive
  dsimp only
  rw [commute]

end Session

namespace Scanning

open Session

variable {s : Session σ} {slot : Nat} {e : Event}

/-! ## Transcripts only get longer -/

/-- The computation makes no call undone. -/
def Lengthens (x : Scanning σ α) : Prop :=
  ∀ s : Session σ, s.transcript.toList <+: (x.runOn s).2.transcript.toList

namespace Lengthens

/-- Transcripts get longer along a computation, step by step. -/
theorem bind {x : Scanning σ α} {k : α → Scanning σ β} (first : x.Lengthens)
    (rest : ∀ a, (k a).Lengthens) : (x >>= k).Lengthens := by
  intro s
  have grown := first s
  rcases run : x.runOn s with ⟨error | a, t⟩
  · rw [runOn_bind_of_error run]
    rw [run] at grown
    exact grown
  · rw [runOn_bind_of_ok run]
    rw [run] at grown
    exact grown.trans (rest a t)

/-- A call adds an entry to the transcript, also if it fails. -/
theorem call (e : Event) (n : Nat) : (call e n : Scanning σ Unit).Lengthens := by
  intro s
  cases found : s.roster[n]? with
  | none =>
      rw [runOn_call_of_none found]
  | some subscriber =>
      cases answer : (subscriber.visitor.react s.findings e).2.failure with
      | none =>
          rw [runOn_call_of_quiet found answer, answered, Array.toList_push]
          exact List.prefix_append ..
      | some reason =>
          rw [runOn_call_of_failure found answer, answered, Array.toList_push]
          exact List.prefix_append ..

theorem calls (e : Event) (slots : List Nat) :
    (slots.forM (Scanning.call e) : Scanning σ Unit).Lengthens := by
  induction slots with
  | nil => exact fun s => List.prefix_rfl
  | cons n rest ih => exact (call e n).bind fun _ => ih

/-- An event adds an entry for each call that it leads to. -/
theorem dispatch (e : Event) : (dispatch e : Scanning σ Unit).Lengthens := by
  intro s
  rw [runOn_dispatch]
  exact calls e _ s

end Lengthens

/-- Whatever is put together from edits and events only makes transcripts longer, by induction on
how it is put together. -/
theorem Made.lengthens {issues : Issue → Prop} {x : Scanning σ α} (made : Made issues x) :
    x.Lengthens := by
  induction made with
  | pure a => exact fun s => List.prefix_rfl
  | edit change => exact fun s => List.prefix_rfl
  | dispatch e => exact .dispatch e
  | throw error => exact fun s => List.prefix_rfl
  | bind first rest ih ih' => exact ih.bind ih'

/-! ## Two runs in lockstep -/

/-- How a run ends, and how it ends if the visitor of a slot never fails. -/
inductive Compares (slot : Nat) :
    Except RunError α × Session σ → Except RunError α × Session σ → Prop where
  /-- Nobody has failed, and both runs are at the same point. -/
  | together {a : α} {t : Session σ} (ready : Ready slot t) :
      Compares slot (.ok a, t) (.ok a, t.forgive slot)
  /-- The run was stopped, but not by the visitor of the slot. -/
  | elsewhere {error : RunError} {t : Session σ} {other : Except RunError α × Session σ}
      (blameless : ∀ call, t.transcript.toList.getLast? = some call → call.slot = slot →
        call.reaction.failure = none) :
      Compares slot (.error error, t) other
  /-- The run was stopped by the visitor of the slot, and the other one went on. -/
  | parted {error : RunError} {t : Session σ} {other : Except RunError α × Session σ}
      {before : List Callback} {call : Callback}
      (transcript : t.transcript.toList = before ++ [call])
      (flawless : ∀ earlier ∈ before, earlier.reaction.failure = none)
      (onward : before ++ [call.forgiven] <+: other.2.transcript.toList) :
      Compares slot (.error error, t) other

/-- If the computation with the failing visitor ends, then this visitor has not failed yet. -/
theorem Compares.ready {a : α} {t : Session σ} {other : Except RunError α × Session σ}
    (compared : Compares slot (.ok a, t) other) : Ready slot t := by
  cases compared with
  | together ready => exact ready

/-- The computation does the same with and without the failures of the visitor of a slot, until that
visitor fails for the first time. -/
def Lockstep (slot : Nat) (x : Scanning σ α) : Prop :=
  ∀ s : Session σ, Ready slot s → Compares slot (x.runOn s) (x.runOn (s.forgive slot))

namespace Lockstep

/-- Computations in lockstep can be put together.  After a failure the second one is carried out in
one of the two runs only, and there it makes the transcript longer. -/
theorem bind {x : Scanning σ α} {k : α → Scanning σ β} (first : Lockstep slot x)
    (rest : ∀ a, Lockstep slot (k a)) (lengthens : ∀ a, (k a).Lengthens) :
    Lockstep slot (x >>= k) := by
  intro s ready
  have compared := first s ready
  rcases run : x.runOn s with ⟨error | a, t⟩ <;>
    rcases run' : x.runOn (s.forgive slot) with ⟨error' | a', t'⟩ <;>
    rw [run, run'] at compared
  · rw [runOn_bind_of_error run, runOn_bind_of_error run']
    cases compared with
    | elsewhere blameless => exact .elsewhere blameless
    | parted transcript flawless onward => exact .parted transcript flawless onward
  · rw [runOn_bind_of_error run, runOn_bind_of_ok run']
    cases compared with
    | elsewhere blameless => exact .elsewhere blameless
    | parted transcript flawless onward =>
        exact .parted transcript flawless (onward.trans (lengthens a' t'))
  · cases compared
  · rw [runOn_bind_of_ok run, runOn_bind_of_ok run']
    cases compared with
    | together ready => exact rest a t ready

/-- An edit of the findings is the same in both runs, since they have the same findings. -/
theorem edit (change : Findings → α × Findings) :
    Lockstep slot (edit change : Scanning σ α) := by
  intro s ready
  have kept : Ready slot { s with findings := (change s.findings).2 } :=
    ⟨ready.flawless, ready.foreign⟩
  rw [runOn_edit, runOn_edit]
  exact .together kept

/-- A call to another slot is the same in both runs: the visitor there is the same, and it sees the
same findings. -/
theorem call_of_ne {n : Nat} (other : n ≠ slot) (e : Event) :
    Lockstep slot (call e n : Scanning σ Unit) := by
  intro s ready
  have same : (s.forgive slot).roster[n]? = s.roster[n]? := by
    rw [forgive, Array.getElem?_modify, if_neg other.symm]
  cases found : s.roster[n]? with
  | none =>
      rw [runOn_call_of_none found, runOn_call_of_none (same.trans found)]
      exact .together ready
  | some subscriber =>
      cases answer : (subscriber.visitor.react s.findings e).2.failure with
      | none =>
          rw [runOn_call_of_quiet found answer, runOn_call_of_quiet (same.trans found) answer,
            answered_forgive_of_ne other]
          refine .together ⟨flawless_answered ready.flawless answer, fun subscriber' found' => ?_⟩
          rw [answered, Array.getElem?_modify, if_neg other] at found'
          exact ready.foreign subscriber' found'
      | some reason =>
          rw [runOn_call_of_failure found answer]
          -- another visitor has failed, and then nothing is said about the rest
          refine .elsewhere fun call last here => ?_
          rw [answered, Array.toList_push, List.getLast?_concat, Option.some.injEq] at last
          rw [← last] at here
          exact absurd here other

/-- A call to the visitor whose failures are forgiven.  Up to its first failure both answers are the
same; at its first failure one run stops and the other one goes on. -/
theorem call_self (e : Event) : Lockstep slot (call e slot : Scanning σ Unit) := by
  intro s ready
  cases found : s.roster[slot]? with
  | none =>
      have absent : (s.forgive slot).roster[slot]? = none := by
        rw [forgive, Array.getElem?_modify, if_pos rfl, found]
        rfl
      rw [runOn_call_of_none found, runOn_call_of_none absent]
      exact .together ready
  | some subscriber =>
      have foreign := ready.foreign subscriber found
      have forgiven : (s.forgive slot).roster[slot]? = some subscriber.unfailing := by
        rw [forgive, Array.getElem?_modify, if_pos rfl, found]
        rfl
      have reacts := Visitor.react_unfailing foreign s.findings e
      have run' : (call e slot).runOn (s.forgive slot) =
          (.ok (), (s.forgive slot).answered slot e
            (subscriber.visitor.unfailing.react s.findings e)) :=
        runOn_call_of_quiet forgiven (congrArg (fun answer => answer.2.failure) reacts)
      rw [run', reacts]
      cases answer : (subscriber.visitor.react s.findings e).2.failure with
      | none =>
          rw [runOn_call_of_quiet found answer, answered_forgive e _ answer]
          refine .together ⟨flawless_answered ready.flawless answer, fun subscriber' found' => ?_⟩
          rw [answered, Array.getElem?_modify, if_pos rfl, found] at found'
          cases found'
          exact (congrArg Badge.own (Roster.badge_react subscriber s.findings e)).trans foreign
      | some reason =>
          rw [runOn_call_of_failure found answer]
          -- here the runs part: one ends with this call, the other one goes on after it
          refine .parted Array.toList_push ready.flawless ?_
          rw [answered, Array.toList_push]
          exact List.prefix_rfl

/-- The calls of one event stay in lockstep up to the first failure of the visitor in question. -/
theorem calls (e : Event) (slots : List Nat) :
    Lockstep slot (slots.forM (call e) : Scanning σ Unit) := by
  induction slots with
  | nil => exact fun s ready => .together ready
  | cons n rest ih =>
      have first : Lockstep slot (call e n : Scanning σ Unit) := by
        by_cases here : n = slot
        · rw [here]
          exact call_self e
        · exact call_of_ne here e
      exact first.bind (fun _ => ih) fun _ => .calls e rest

/-- An event goes to the same slots in both runs. -/
theorem dispatch (e : Event) : Lockstep slot (dispatch e : Scanning σ Unit) := by
  intro s ready
  rw [runOn_dispatch, runOn_dispatch, called_forgive]
  exact calls e _ s ready

end Lockstep

/-- Whatever is put together from edits and events stays in lockstep, by induction on how it is put
together. -/
theorem Made.lockstep {issues : Issue → Prop} {x : Scanning σ α} (made : Made issues x) :
    Lockstep slot x := by
  induction made with
  | pure a => exact fun s ready => .together ready
  | edit change => exact .edit _
  | dispatch e => exact .dispatch e
  | throw error =>
      intro s ready
      exact .elsewhere fun call last _ => ready.flawless call (List.mem_of_getLast? last)
  | bind first rest ih ih' => exact ih.bind ih' fun a => (rest a).lengthens

end Scanning

/-! ## Runs -/

namespace Analysis

open Scanning Session

variable {config : Config} {visitors : List (External σ × Subscription)}
  {sources : List SourceFile} {artifacts : List Artifact}

/-- A run that starts with an unfailing visitor is the run that starts with the visitor itself,
forgiven. -/
theorem start_set {i : Nat} {v : External σ × Subscription} (listed : visitors[i]? = some v) :
    start config (visitors.set i (v.1.unfailing, v.2)) =
      (start config visitors).forgive ((ownVisitors config : List (Subscriber σ)).length + i) := by
  unfold start Session.forgive
  congr 1
  refine Array.ext_getElem? fun n => ?_
  rw [Array.getElem?_modify, List.getElem?_toArray, List.getElem?_toArray]
  split
  · next here =>
      subst here
      rw [List.getElem?_append_right (Nat.le_add_right ..),
        List.getElem?_append_right (Nat.le_add_right ..), Nat.add_sub_cancel_left, List.getElem?_map,
        List.getElem?_map, List.getElem?_set_self (List.getElem?_eq_some_iff.mp listed).1, listed]
      rfl
  · next elsewhere =>
      by_cases early : n < (ownVisitors config : List (Subscriber σ)).length
      · rw [List.getElem?_append_left early, List.getElem?_append_left early]
      · have late := Nat.le_of_not_lt early
        have other : i ≠ n - (ownVisitors config : List (Subscriber σ)).length := by omega
        rw [List.getElem?_append_right late, List.getElem?_append_right late, List.getElem?_map,
          List.getElem?_map, List.getElem?_set_ne other]

/-- The slots after the analysis's own visitors are those of the external ones. -/
theorem external_of_late {slot : Nat} {subscriber : Subscriber σ}
    (late : (ownVisitors config : List (Subscriber σ)).length ≤ slot)
    (found : (start config visitors).roster[slot]? = some subscriber) :
    ∃ v ∈ visitors, externalSubscriber v = subscriber := by
  rw [start, List.getElem?_toArray, List.getElem?_append_right late, List.getElem?_map,
    Option.map_eq_some_iff] at found
  obtain ⟨v, listed, same⟩ := found
  exact ⟨v, List.mem_of_getElem? listed, same⟩

/-- At the start no visitor has failed yet. -/
theorem start_ready {slot : Nat}
    (late : (ownVisitors config : List (Subscriber σ)).length ≤ slot) :
    Ready slot (start config visitors) := by
  refine ⟨List.forall_mem_nil _, fun subscriber found => ?_⟩
  obtain ⟨v, -, rfl⟩ := external_of_late late found
  rfl

variable (config visitors sources artifacts) in
/-- A run, compared with the one in which the visitor of an external slot never fails. -/
theorem runSession_compares {slot : Nat}
    (late : (ownVisitors config : List (Subscriber σ)).length ≤ slot) :
    Compares slot (runSession config visitors sources artifacts)
      ((scanning sources artifacts).runOn ((start config visitors).forgive slot)) :=
  (Made.scanning sources artifacts).lockstep _ (start_ready late)

/-- **A failing visitor ends the run.**  The first call that fails is the last one of the run.  Up to
it, the calls are those of the run in which the same visitor never fails.  The error names the
visitor, the scan and the event of that call and gives its reason; there is no analysis. -/
theorem failing_call_ends_run (config : Config) (visitors : List (External σ × Subscription))
    (sources : List SourceFile) (artifacts : List Artifact) (call : Callback) (reason : String)
    (made : call ∈ (runSession config visitors sources artifacts).2.transcript.toList)
    (failed : call.reaction.failure = some reason) :
    ∃ before i v,
      (runSession config visitors sources artifacts).2.transcript.toList = before ++ [call] ∧
      (∀ earlier ∈ before, earlier.reaction.failure = none) ∧
      visitors[i]? = some v ∧
      call.slot = (ownVisitors config : List (Subscriber σ)).length + i ∧
      before ++ [call.forgiven] <+: (runSession config (visitors.set i (v.1.unfailing, v.2)) sources
        artifacts).2.transcript.toList ∧
      run config visitors sources artifacts =
        .error (.visitor v.1.name call.event.phase call.event.kind reason) := by
  have compared (i : Nat) := runSession_compares config visitors sources artifacts
    (Nat.le_add_right (ownVisitors config : List (Subscriber σ)).length i)
  rcases ended : runSession config visitors sources artifacts with ⟨error | done, t⟩
  · obtain ⟨i, v, blamed, reason', listed, last, slot, failure, rfl⟩ :=
      blamed_of_runSession (congrArg Prod.fst ended)
    have compared := compared i
    rw [← start_set listed, ended] at compared
    rw [ended] at made last
    cases compared with
    | elsewhere blameless =>
        rw [blameless blamed last slot] at failure
        cases failure
    | parted transcript flawless onward =>
        rw [transcript] at made last
        obtain rfl := Option.some.inj ((List.getLast?_concat ..).symm.trans last)
        rcases List.mem_append.mp made with early | late
        · rw [flawless call early] at failed
          cases failed
        · obtain rfl := List.mem_singleton.mp late
          obtain rfl := Option.some.inj (failure.symm.trans failed)
          exact ⟨_, i, v, transcript, flawless, listed, slot, onward, by rw [run, ended]; rfl⟩
  · -- a run that ends well has no call that fails
    have compared := compared 0
    rw [ended] at compared made
    rw [compared.ready.flawless call made] at failed
    cases failed

/-! ### Two visitors of two types -/

/-- A visitor of types that fails after a number of calls. -/
def counting (name : String) (limit : Nat) : External Nat where
  name := name
  interests := [.type]
  memory := 0
  react n _ _ := (n + 1, if n < limit then .none else { Reaction.none with failure := some "full" })

def counters : List (External Nat × Subscription) :=
  [(counting "first" 1, .both), (counting "second" 9, .source)]

def twoTypes : List SourceFile :=
  [{ path := "A.java", result := .ok [.type "A" none] },
    { path := "B.java", result := .ok [.type "B" none] }]

/-- The first visitor is told of the second type. -/
def secondType : Callback where
  slot := 2
  event := .type { phase := .source, element := ⟨1⟩, key := "B" }
  reaction := { Reaction.none with failure := some "full" }

theorem failing_call_ends_run_twoTypes :
    ∃ before i v,
      (runSession {} counters twoTypes []).2.transcript.toList = before ++ [secondType] ∧
      before.length = 2 ∧
      (∀ earlier ∈ before, earlier.reaction.failure = none) ∧
      counters[i]? = some v ∧
      secondType.slot = 2 + i ∧
      before ++ [secondType.forgiven] <+: (runSession {} (counters.set i (v.1.unfailing, v.2))
        twoTypes []).2.transcript.toList ∧
      run {} counters twoTypes [] = .error (.visitor v.1.name .source .type "full") := by
  have evaluated : (runSession {} counters twoTypes []).2.transcript.toList =
      [⟨2, .type { phase := .source, element := ⟨0⟩, key := "A" }, .none⟩,
        ⟨3, .type { phase := .source, element := ⟨0⟩, key := "A" }, .none⟩, secondType] := by
    decide +kernel
  have made : secondType ∈ (runSession {} counters twoTypes []).2.transcript.toList := by
    rw [evaluated]
    decide
  obtain ⟨before, i, v, transcript, rest⟩ :=
    failing_call_ends_run {} counters twoTypes [] secondType "full" made rfl
  have length := congrArg List.length (evaluated.symm.trans transcript)
  rw [List.length_append] at length
  exact ⟨before, i, v, transcript, Nat.succ.inj length.symm, rest⟩

end Analysis

end CodeMetrics
