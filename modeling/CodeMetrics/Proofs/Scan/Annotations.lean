import CodeMetrics.Proofs.Scan.Bare
import CodeMetrics.Proofs.Scan.FailFast
import CodeMetrics.Proofs.Scan.LastAttachment
import CodeMetrics.Proofs.Scan.Sifting

/-!
# Annotations do not interfere

An annotation is a measure whose name is not the name of a metric.  External visitors that do not
fail and do nothing but annotate leave no other traces: the run comes to what it comes to without
them, with their annotations on top.

The two runs do not make the same calls, so they are compared call by call.  A call to a visitor of
the analysis itself has its counterpart in the other run; a call to a guest, that is to an external
visitor, has none (`Scanning.Undisturbed` takes two computations for this reason).  That the guests
only annotate is known of the calls of the whole run.  It is handed down to any part of the run,
because computations only lengthen the transcript.
-/

namespace CodeMetrics

variable {σ α β : Type} {own : Nat}

/-! ## Sessions -/

namespace Session

/-- The calls from slot `own` on are to visitors that only annotate. -/
def Harmless (own : Nat) (s : Session σ) : Prop :=
  ∀ call ∈ s.transcript.toList, own ≤ call.slot → call.reaction.annotates = true

theorem Harmless.earlier {s t : Session σ} (harmless : t.Harmless own)
    (early : s.transcript.toList <+: t.transcript.toList) : s.Harmless own :=
  fun call listed => harmless call (early.subset listed)

/-- The second session has the first `own` visitors of the first one and no others, all of them part
of the analysis itself.  Its findings are those of the first session without annotations. -/
structure Beside (own : Nat) (s t : Session σ) : Prop where
  findings : s.findings.bare.Agrees Eq t.findings
  size : t.roster.size = own
  roster : ∀ n < own, s.roster[n]? = t.roster[n]?
  own : t.IsOwn

variable {s t : Session σ} {e : Event} {slot : Nat}

/-- An event goes to the same visitors, and then to guests.  Guests subscribe after the visitors of
the analysis, so their slots come last. -/
theorem Beside.called (beside : Beside own s t) (phase : Phase) (kind : EventKind) :
    ∃ guests, s.roster.called phase kind = t.roster.called phase kind ++ guests ∧
      ∀ n ∈ guests, own ≤ n := by
  have early : t.roster.toList <+: s.roster.toList := by
    refine List.prefix_iff_getElem?.mpr fun n inside => ?_
    rw [Array.length_toList, beside.size] at inside
    rw [Array.getElem?_toList, beside.roster n inside, ← Array.getElem?_toList,
      List.getElem?_eq_getElem]
  obtain ⟨rest, split⟩ := early
  have length : t.roster.toList.length = own := beside.size
  refine ⟨(rest.zipIdx own).flatMap fun entry => List.replicate (entry.1.calls phase kind) entry.2,
    ?_, fun n listed => ?_⟩
  · rw [Roster.called, ← split, List.zipIdx_append, List.flatMap_append, length, Nat.zero_add]
    rfl
  · obtain ⟨entry, listed, repeated⟩ := List.mem_flatMap.mp listed
    rw [(List.mem_replicate.mp repeated).2]
    exact List.le_snd_of_mem_zipIdx listed

/-- A visitor of the analysis itself answers in both sessions. -/
theorem Beside.answered (beside : Beside own s t) {subscriber : Subscriber σ}
    (found : t.roster[slot]? = some subscriber) :
    Beside own (s.answered slot e (subscriber.visitor.react s.findings e))
      (t.answered slot e (subscriber.visitor.react s.findings e)) := by
  have isOwn := beside.own slot subscriber found
  refine ⟨?_, ?_, fun n inside => ?_, beside.own.answered found s.findings e⟩
  · rw [Session.answered, ← Findings.bare_effects (Visitor.effects_of_isOwn isOwn _ _)]
    exact beside.findings.effects _
  · rw [Session.answered, Array.size_modify, beside.size]
  · rw [Session.answered, Session.answered, Array.getElem?_modify, Array.getElem?_modify,
      beside.roster n inside]

/-- A guest answers. -/
theorem Beside.annotated (beside : Beside own s t) (guest : own ≤ slot)
    {answer : Visitor σ × Reaction} (annotates : answer.2.effects.all Effect.annotates = true) :
    Beside own (s.answered slot e answer) t where
  findings := (Findings.bare_annotations annotates s.findings).trans beside.findings
  size := beside.size
  roster n inside := by
    have other : slot ≠ n := by omega
    rw [Session.answered, Array.getElem?_modify, if_neg other, beside.roster n inside]
  own := beside.own

end Session

/-! ## Computations -/

namespace Scanning

open Session Findings

/-- As long as the guests only annotate, one computation does beside them what the other one does
without them. -/
def Undisturbed (own : Nat) (x y : Scanning σ α) : Prop :=
  ∀ s t : Session σ, Beside own s t → Harmless own (x.runOn s).2 →
    (x.runOn s).1 = (y.runOn t).1 ∧ Beside own (x.runOn s).2 (y.runOn t).2

namespace Undisturbed

theorem pure (a : α) : Undisturbed own (pure a : Scanning σ α) (pure a) :=
  fun _ _ beside _ => ⟨rfl, beside⟩

/-- Computations one after the other.  What guests have done in the first one still stands in the
transcript at the end, since transcripts only get longer; so the first one was harmless as well. -/
theorem bind {x y : Scanning σ α} {k k' : α → Scanning σ β} (first : Undisturbed own x y)
    (rest : ∀ a, Undisturbed own (k a) (k' a)) (lengthens : ∀ a, (k a).Lengthens) :
    Undisturbed own (x >>= k) (y >>= k') := by
  intro s t beside harmless
  have compared := first s t beside
  rcases run : x.runOn s with ⟨answer, s₁⟩
  rcases run' : y.runOn t with ⟨answer', t₁⟩
  rw [run, run'] at compared
  cases answer with
  | error error =>
      rw [runOn_bind_of_error run] at harmless ⊢
      obtain ⟨rfl, beside₁⟩ := compared harmless
      rw [runOn_bind_of_error run']
      exact ⟨rfl, beside₁⟩
  | ok a =>
      rw [runOn_bind_of_ok run] at harmless ⊢
      obtain ⟨rfl, beside₁⟩ := compared (harmless.earlier (lengthens a s₁))
      rw [runOn_bind_of_ok run']
      exact rest a s₁ t₁ beside₁ harmless

theorem edit {change : Findings → α × Findings} (made : Edit (fun _ => True) α change) :
    Undisturbed own (edit change : Scanning σ α) (edit change) := by
  intro s t beside _
  obtain ⟨same, stripped⟩ := made.bare s.findings
  obtain ⟨same', agrees⟩ := made.agrees Report.lasting_eq (fun _ _ => trivial) beside.findings
  rw [runOn_edit, runOn_edit]
  refine ⟨congrArg Except.ok (same.trans same'), ?_⟩
  exact ⟨stripped.trans agrees, beside.size, beside.roster, beside.own⟩

/-- A call to a visitor of the analysis itself.  It sees findings that differ by annotations only,
and it looks at none of these, so it answers alike. -/
theorem call {n : Nat} (inside : n < own) (e : Event) :
    Undisturbed own (call e n : Scanning σ Unit) (call e n) := by
  intro s t beside _
  have same := beside.roster n inside
  cases found : t.roster[n]? with
  | none =>
      rw [runOn_call_of_none found, runOn_call_of_none (same.trans found)]
      exact ⟨rfl, beside⟩
  | some subscriber =>
      have isOwn := beside.own n subscriber found
      have reacts : subscriber.visitor.react t.findings e =
          subscriber.visitor.react s.findings e :=
        (Visitor.react_congr isOwn beside.findings.model.index e).trans
          (Visitor.react_bare isOwn s.findings e)
      have answered := beside.answered (e := e) found
      cases failure : (subscriber.visitor.react s.findings e).2.failure with
      | none =>
          rw [runOn_call_of_quiet (same.trans found) failure,
            runOn_call_of_quiet found (by rw [reacts, failure]), reacts]
          exact ⟨rfl, answered⟩
      | some reason =>
          rw [runOn_call_of_failure (same.trans found) failure,
            runOn_call_of_failure found (by rw [reacts, failure]), reacts]
          exact ⟨rfl, answered.findings.say _ _ _, answered.size, answered.roster, answered.own⟩

/-- A call to a guest, which is no call in the run without guests.  All that it does is to annotate,
and annotations are left out of the comparison. -/
theorem guest {n : Nat} (late : own ≤ n) (e : Event) :
    Undisturbed own (Scanning.call e n : Scanning σ Unit) (Pure.pure ()) := by
  intro s t beside harmless
  cases found : s.roster[n]? with
  | none =>
      rw [runOn_call_of_none found]
      exact ⟨rfl, beside⟩
  | some subscriber =>
      have annotates (u : Session σ)
          (said : (⟨n, e, (subscriber.visitor.react s.findings e).2⟩ : Callback) ∈
            u.transcript.toList) (harmless : u.Harmless own) :
          (subscriber.visitor.react s.findings e).2.annotates = true :=
        harmless _ said late
      cases failure : (subscriber.visitor.react s.findings e).2.failure with
      | none =>
          rw [runOn_call_of_quiet found failure] at harmless ⊢
          have annotates := annotates _ (by simp [Session.answered]) harmless
          rw [Reaction.annotates, Bool.and_eq_true] at annotates
          exact ⟨rfl, beside.annotated late annotates.2⟩
      | some reason =>
          rw [runOn_call_of_failure found failure] at harmless
          have annotates := annotates _ (by simp [Session.answered]) harmless
          rw [Reaction.annotates, failure] at annotates
          cases annotates

/-- An event goes to the visitors of the analysis in both runs, and to the guests in one of them.
The guests come last, as they were subscribed last. -/
theorem dispatch (e : Event) : Undisturbed own (dispatch e : Scanning σ Unit) (dispatch e) := by
  have calls (slots guests : List Nat) (inside : ∀ n ∈ slots, n < own)
      (late : ∀ n ∈ guests, own ≤ n) :
      Undisturbed own ((slots ++ guests).forM (Scanning.call e) : Scanning σ Unit)
        (slots.forM (Scanning.call e)) := by
    induction slots with
    | cons n slots ih =>
        obtain ⟨first, later⟩ := List.forall_mem_cons.mp inside
        exact (call first e).bind (fun _ => ih later) fun _ => .calls e _
    | nil =>
        -- the visitors of the analysis itself are through
        induction guests with
        | nil => exact pure ()
        | cons n guests ih =>
            obtain ⟨first, later⟩ := List.forall_mem_cons.mp late
            exact (guest first e).bind (fun _ => ih later) fun _ => .calls e _
  intro s t beside
  obtain ⟨guests, split, late⟩ := beside.called e.phase e.kind
  rw [runOn_dispatch, runOn_dispatch, split]
  refine calls _ guests (fun n listed => ?_) late s t beside
  rw [← beside.size]
  exact Roster.lt_of_mem_called listed

end Undisturbed

/-- Whatever is made of edits and events is not disturbed by annotations. -/
theorem Made.undisturbed {x : Scanning σ α} (made : Made (fun _ => True) x) :
    Undisturbed own x x := by
  induction made with
  | pure a => exact .pure a
  | edit made => exact .edit made
  | dispatch e => exact .dispatch e
  | throw error => exact fun s t beside _ => ⟨rfl, beside⟩
  | bind first rest ih ih' => exact ih.bind ih' fun a => (rest a).lengthens

end Scanning

/-! ## Visitors that annotate by design -/

/-- Whatever it is told, it does not fail and does nothing but annotate. -/
def External.Annotates (v : External σ) : Prop :=
  ∀ memory f e, (v.react memory f e).2.annotates = true

namespace Session

/-- The guests annotate by design and have done nothing else so far. -/
structure Annotating (own : Nat) (s : Session σ) : Prop where
  guests : ∀ {n : Nat} {subscriber : Subscriber σ}, own ≤ n → s.roster[n]? = some subscriber →
    ∃ v : External σ, subscriber.visitor = .external v ∧ v.Annotates
  harmless : s.Harmless own

/-- As long as guests only annotate, this is so for every call of the transcript. -/
theorem annotating_persistent (own : Nat) : Persistent (Annotating (σ := σ) own) := by
  refine .of_answers (fun annotating _ _ => ⟨annotating.guests, annotating.harmless⟩) ?_
  intro s e slot subscriber annotating _ found
  refine ⟨fun {n subscriber'} late found' => ?_, fun call listed late => ?_⟩
  · rw [answered, Array.getElem?_modify] at found'
    split at found'
    · next here =>
        obtain ⟨v, visitor, annotates⟩ := annotating.guests (here ▸ late) found
        rw [← here, found] at found'
        cases found'
        rw [visitor]
        exact ⟨{ v with memory := (v.react v.memory s.findings e).1 }, rfl, annotates⟩
    · exact annotating.guests late found'
  · rw [answered, Array.toList_push, List.mem_append, List.mem_singleton] at listed
    rcases listed with early | rfl
    · exact annotating.harmless call early late
    · obtain ⟨v, visitor, annotates⟩ := annotating.guests late found
      rw [visitor]
      exact annotates v.memory s.findings e

end Session

/-! ## Runs -/

namespace Analysis

open Scanning Session

variable {config : Config} {visitors : List (External σ × Subscription)}

theorem start_annotating (config : Config) (annotating : ∀ v ∈ visitors, v.1.Annotates) :
    (start config visitors).Annotating (ownVisitors config : List (Subscriber σ)).length := by
  refine ⟨fun {n subscriber} late found => ?_, List.forall_mem_nil _⟩
  obtain ⟨v, listed, rfl⟩ := external_of_late late found
  exact ⟨v.1, rfl, annotating v listed⟩

/-- Visitors that annotate by design do nothing else in a run, whatever they are told and whatever
they remember. -/
theorem harmless_of_annotates (annotating : ∀ v ∈ visitors, v.1.Annotates)
    (sources : List SourceFile) (artifacts : List Artifact) :
    (runSession config visitors sources artifacts).2.Harmless
      (ownVisitors config : List (Subscriber σ)).length := by
  have scanned := scanning_persistent (annotating_persistent _)
    (start_annotating config annotating) sources artifacts
  rcases ran : (scanning sources artifacts).runOn (start config visitors) with ⟨error | done, t⟩
  · rw [runSession, ran]
    exact (scanned.error ran).harmless
  · rw [runSession, ran]
    obtain ⟨types, s, finished, annotating⟩ := scanned.ok ran
    unfold Harmless
    rw [finished.transcript]
    exact annotating.harmless

theorem start_beside (config : Config) (visitors : List (External σ × Subscription)) :
    Beside (ownVisitors config : List (Subscriber σ)).length (start config visitors)
      (start config []) := by
  have empty : ({} : Index).bare = {} := by simp [Index.bare]
  refine ⟨⟨⟨empty, rfl⟩, rfl, rfl, rfl⟩, rfl, fun n inside => ?_, start_isOwn config⟩
  rw [start, start, List.getElem?_toArray, List.getElem?_toArray, List.getElem?_append_left inside,
    List.getElem?_append_left inside]

/-- **Annotations do not interfere.**  If every answer of an external visitor is without a failure
and consists of annotations and messages, the run ends with an analysis.  Up to annotations it is
the analysis of the run without these visitors: it has the same elements with the same owners,
children and metrics, the same dependencies, the same superclasses and the same report.

An annotation of the analysis is the last one that was given to the element under its name.
Conversely, the last one is there if it was given after visitors had been told of the element. -/
theorem annotations_do_not_interfere (config : Config)
    (visitors : List (External σ × Subscription)) (sources : List SourceFile)
    (artifacts : List Artifact)
    (harmless : ∀ call ∈ (runSession config visitors sources artifacts).2.transcript.toList,
      (ownVisitors config : List (Subscriber σ)).length ≤ call.slot →
        call.reaction.annotates = true) :
    let calls := (runSession config visitors sources artifacts).2.transcript.toList
    ∃ a b, run config visitors sources artifacts = .ok a ∧
      run config ([] : List (External σ × Subscription)) sources artifacts = .ok b ∧
      b.index = a.index.bare ∧ b.graph = a.graph ∧
      b.findings.superclasses = a.findings.superclasses ∧
      b.findings.report = a.findings.report ∧
      ∀ h name, Metric.isName name = false → ∀ value,
        (a.index.measure? h name = some value →
          (Callback.values calls h name).getLast? = some value) ∧
        ((Callback.values (Callback.since h calls) h name).getLast? = some value →
          a.index.measure? h name = some value) := by
  have compared := (Made.scanning sources artifacts).undisturbed _ _
    (start_beside config visitors) harmless
  have alone : (runSession config ([] : List (External σ × Subscription)) sources artifacts).1 =
      .ok () := by
    rw [runSession_eq]
    exact outcome_ok config sources artifacts
  rcases ended : runSession config visitors sources artifacts with ⟨answer, s⟩
  rcases ended' : runSession config ([] : List (External σ × Subscription)) sources artifacts with
    ⟨answer', t⟩
  rw [ended'] at alone
  rw [← runSession, ended, ← runSession, ended'] at compared
  obtain ⟨rfl, beside⟩ := compared
  obtain rfl : answer = .ok () := alone
  refine ⟨⟨s.findings⟩, ⟨t.findings⟩, by rw [run, ended]; rfl, by rw [run, ended']; rfl,
    beside.findings.model.index.symm, beside.findings.model.graph.symm,
    beside.findings.superclasses, beside.findings.report.symm, fun h name custom value => ?_⟩
  have other : name ∉ closingMetrics.map Metric.name := by
    intro listed
    obtain ⟨metric, -, rfl⟩ := List.mem_map.mp listed
    rw [Metric.isName_name] at custom
    cases custom
  exact explained_of_runSession ended other

/-! ### A visitor that counts what it is told -/

/-- It annotates each element with the number of the last event about it. -/
def headcount : External Nat where
  name := "headcount"
  interests := EventKind.all
  memory := 0
  react n _ e :=
    (n + 1, { effects := e.element?.toList.map (Effect.attach · "seen" (.ofCount n)) })

theorem headcount_annotates : headcount.Annotates := by
  intro n f e
  have custom : Metric.isName "seen" = false := by decide
  simp [headcount, Reaction.annotates, Effect.annotates, custom]

theorem annotations_do_not_interfere_headcount :
    ∃ a b, run {} [(headcount, .both)] declaredType decodedType = .ok a ∧
      run {} ([] : List (External Nat × Subscription)) declaredType decodedType = .ok b ∧
      b.index = a.index.bare ∧
      a.measure? "p/A" "seen" = some (.ofCount 3) ∧ b.measure? "p/A" "seen" = none := by
  obtain ⟨a, b, ran, ran', index, -⟩ := annotations_do_not_interfere {} [(headcount, .both)]
    declaredType decodedType (harmless_of_annotates (by simpa using headcount_annotates) _ _)
  have seen : (run {} [(headcount, .both)] declaredType decodedType).toOption.map
      (·.measure? "p/A" "seen") = some (some (.ofCount 3)) := by
    decide +kernel
  have unseen : b.measure? "p/A" "seen" = none := by
    have custom : Metric.isName "seen" = false := by decide
    rw [measure?, find?, index, Index.find?_bare]
    cases a.index.find? "p/A" with
    | none => rfl
    | some e =>
        show e.bare.measure? "seen" = none
        rw [Element.measure?_bare, custom]
        rfl
  rw [ran] at seen
  exact ⟨a, b, ran, ran', index, Option.some.inj seen, unseen⟩

end Analysis

end CodeMetrics
