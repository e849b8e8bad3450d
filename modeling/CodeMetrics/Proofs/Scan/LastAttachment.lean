import CodeMetrics.Proofs.Scan.Growth

/-!
# The last attachment counts

A run starts without measures, and scans attach none.  So until the last metrics every measure comes
from the answer of a visitor, and it is the last value that any visitor has attached to the element
under the name.

The converse needs care: an attachment to an element that is not there yet is lost.  From the moment
when visitors are told of an element on, nothing is lost (`Session.Explained.kept`), because what
visitors are told of is there.
-/

namespace CodeMetrics

open Scanning Session

variable {σ : Type}

/-- The calls from the first one that is about an element. -/
def Callback.since (h : Handle) (calls : List Callback) : List Callback :=
  calls.dropWhile (·.event.element? != some h)

/-- A call counts if it is about the element, or if an earlier one is. -/
theorem Callback.since_concat (h : Handle) (calls : List Callback) (call : Callback) :
    since h (calls ++ [call]) =
      if since h calls = [] ∧ call.event.element? ≠ some h then []
      else since h calls ++ [call] := by
  unfold since
  rw [List.dropWhile_append]
  by_cases empty : calls.dropWhile (·.event.element? != some h) = []
  · by_cases about : call.event.element? = some h <;> simp [empty, about]
  · simp [empty]

namespace Session

/-- The last value of an answer counts, and the old one if there is none. -/
theorem measure?_answered {s : Session σ} {h : Handle} (there : s.findings.index.Knows h)
    {slot : Nat} {e : Event} {answer : Visitor σ × Reaction} {name : String} :
    (s.answered slot e answer).findings.index.measure? h name =
      (Callback.values [⟨slot, e, answer.2⟩] h name).getLast?.or
        (s.findings.index.measure? h name) := by
  rw [answered, Findings.measure?_effects there, Callback.values, List.flatMap_singleton]

/-- The calls so far account for all measures. -/
structure Explained (s : Session σ) : Prop where
  known : ∀ {h : Handle}, Callback.since h s.transcript.toList ≠ [] → s.findings.index.Knows h
  last : ∀ {h : Handle} {name : String} {value : Measure},
    s.findings.index.measure? h name = some value →
      (Callback.values s.transcript.toList h name).getLast? = some value
  kept : ∀ {h : Handle} {name : String} {value : Measure},
    (Callback.values (Callback.since h s.transcript.toList) h name).getLast? = some value →
      s.findings.index.measure? h name = some value

namespace Explained

variable {s : Session σ} {e : Event} {slot : Nat}

theorem alter (explained : s.Explained) {f : Findings} (grows : s.findings.index.Grows f.index)
    (measures : ∀ h, f.index.measuresOf h = s.findings.index.measuresOf h) :
    Explained { s with findings := f } where
  known told := grows.knows (explained.known told)
  last found := explained.last (by rwa [Index.measure?_congr _ (measures _)] at found)
  kept given := by
    show f.index.measure? _ _ = _
    rw [Index.measure?_congr _ (measures _)]
    exact explained.kept given

/-- Once visitors have been told of an element, it is there. -/
theorem knows_of_since (explained : s.Explained)
    (told : ∀ {h : Handle}, e.element? = some h → s.findings.index.Knows h) {h : Handle}
    {reaction : Reaction}
    (listed : Callback.since h (s.transcript.toList ++ [⟨slot, e, reaction⟩]) ≠ []) :
    s.findings.index.Knows h := by
  rw [Callback.since_concat] at listed
  split at listed
  · exact absurd rfl listed
  · next counts =>
      rw [not_and_or, not_not] at counts
      exact counts.elim explained.known told

/-- A visitor answers.  The values that it attaches to elements that are there are the last ones
from now on; on any other handle they have no effect. -/
theorem answered (explained : s.Explained)
    (told : ∀ {h : Handle}, e.element? = some h → s.findings.index.Knows h)
    (answer : Visitor σ × Reaction) : (s.answered slot e answer).Explained := by
  have calls : (s.answered slot e answer).transcript.toList =
      s.transcript.toList ++ [⟨slot, e, answer.2⟩] := Array.toList_push
  refine ⟨fun listed => ?_, fun {h name value} found => ?_, fun {h name value} given => ?_⟩
  · rw [calls] at listed
    exact (s.findings.knows_effects_iff _ _).mpr (explained.knows_of_since told listed)
  · -- nothing is attached to an element that is not there
    have there : s.findings.index.Knows h := by
      by_contra unknown
      have nothing := Index.measure?_of_not_knows name
        (mt (s.findings.knows_effects_iff answer.2.effects h).mp unknown)
      rw [Session.answered, nothing] at found
      cases found
    rw [measure?_answered there] at found
    rw [calls, Callback.values_append, List.getLast?_append]
    cases new : (Callback.values [⟨slot, e, answer.2⟩] h name).getLast? with
    | some later => rw [new] at found; exact found
    | none => rw [new] at found; exact explained.last found
  · rw [calls] at given
    have counts : Callback.since h (s.transcript.toList ++ [⟨slot, e, answer.2⟩]) ≠ [] := by
      intro empty
      rw [empty] at given
      cases given
    rw [measure?_answered (explained.knows_of_since told counts)]
    rw [Callback.since_concat] at given
    split at given
    · cases given
    · rw [Callback.values_append, List.getLast?_append] at given
      cases new : (Callback.values [⟨slot, e, answer.2⟩] h name).getLast? with
      | some later => rw [new] at given; exact given
      | none => rw [new] at given; exact explained.kept given

end Explained

/-- Through both scans, the calls account for all measures. -/
theorem explained_persistent : Persistent (Explained (σ := σ)) :=
  .of_answers (fun explained grows measures => explained.alter grows measures)
    fun explained told _ => explained.answered told _

end Session

/-! ## Runs -/

namespace Analysis

variable {config : Config} {visitors : List (External σ × Subscription)}
  {sources : List SourceFile} {artifacts : List Artifact} {t : Session σ}

theorem start_explained (config : Config) (visitors : List (External σ × Subscription)) :
    (start config visitors).Explained where
  known told := absurd rfl told
  last found := by cases found
  kept given := by cases given

/-- The calls of a run account for all measures but the last metrics. -/
theorem explained_of_runSession
    (ended : runSession config visitors sources artifacts = (.ok (), t)) {h : Handle}
    {name : String} (other : name ∉ closingMetrics.map Metric.name) {value : Measure} :
    (t.findings.index.measure? h name = some value →
      (Callback.values t.transcript.toList h name).getLast? = some value) ∧
    ((Callback.values (Callback.since h t.transcript.toList) h name).getLast? = some value →
      t.findings.index.measure? h name = some value) := by
  have scanned := scanning_persistent explained_persistent (start_explained config visitors) sources
    artifacts
  obtain ⟨types, s, finished, explained⟩ := scanned.ok ended
  rw [measure?_of_closes finished.closes fun listed => absurd listed other, finished.transcript]
  exact ⟨explained.last, explained.kept⟩

end Analysis

end CodeMetrics
