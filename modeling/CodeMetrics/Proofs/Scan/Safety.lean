import CodeMetrics.Proofs.Scan.Checked
import CodeMetrics.Proofs.Scan.Lineage

/-!
# No input stops a run

Whatever the source files declare and whatever classes the artifacts hold, a run ends with an
analysis unless an external visitor fails.

The index, the graph and the roster refer to elements, vertices, edges and subscribers by number.
That no number is out of range is said in two ways.  The run with checked accesses goes through and
is the run, so every access is in range at the moment it is made.  And at every point that the run
reaches, and in the session that it leaves behind, every number that is stored in the index or in the
graph belongs to something that is there (`Model.InRange`).
-/

namespace CodeMetrics

namespace Analysis

open Scanning Session

variable {σ : Type}

section Session

variable {config : Config} {visitors : List (External σ × Subscription)}
  {sources : List SourceFile} {artifacts : List Artifact}

/-- A run that ends with an error was stopped, and all that a stopped scan is known to have left
holds of its session. -/
theorem stopped_of_runSession {error : RunError}
    (failed : (runSession config visitors sources artifacts).1 = .error error) :
    Stopped (start config visitors).roster.badges error
      (runSession config visitors sources artifacts).2 := by
  have session : (scanning sources artifacts).runOn (start config visitors) =
      (.error error, (runSession config visitors sources artifacts).2) := by
    rw [← failed]
    rfl
  exact (scanning_runs config visitors sources artifacts).error session

/-- However a run ends, its session is sane. -/
theorem runSession_sane (config : Config) (visitors : List (External σ × Subscription))
    (sources : List SourceFile) (artifacts : List Artifact) :
    Sane (start config visitors).roster.badges
      (runSession config visitors sources artifacts).2 := by
  cases ended : (runSession config visitors sources artifacts).1 with
  | error error => exact (stopped_of_runSession ended).1
  | ok done =>
      have session : (scanning sources artifacts).runOn (start config visitors) =
          (.ok done, (runSession config visitors sources artifacts).2) := by
        rw [← ended]
        rfl
      obtain ⟨types, s, finished⟩ :=
        (scanning_runs config visitors sources artifacts).ok session
      exact finished.sane

/-- An error is the last answer of an external visitor. -/
theorem blamed_of_runSession {error : RunError}
    (failed : (runSession config visitors sources artifacts).1 = .error error) :
    ∃ i v call reason, visitors[i]? = some v ∧
      (runSession config visitors sources artifacts).2.transcript.toList.getLast? = some call ∧
      call.slot = (ownVisitors config : List (Subscriber σ)).length + i ∧
      call.reaction.failure = some reason ∧
      error = .visitor v.1.name call.event.phase call.event.kind reason :=
  blamed_of_stopped (stopped_of_runSession failed)

end Session

/-- **No input stops a run.**  Without a failure of an external visitor there is an analysis; any
error is the last answer of such a visitor, and the visitors of the analysis itself never fail.
With every access by number checked, the run goes through and is the same run.  At all the points
it reaches, the numbers in the index and in the graph are in range, and every call goes to one of the
subscribers of the start. -/
theorem only_visitors_stop_runs (config : Config) (visitors : List (External σ × Subscription))
    (sources : List SourceFile) (artifacts : List Artifact) :
    let own := (ownVisitors config : List (Subscriber σ)).length
    let result := (runSession config visitors sources artifacts).1
    let t := (runSession config visitors sources artifacts).2
    ((∀ call ∈ t.transcript.toList, own ≤ call.slot → call.reaction.failure = none) →
        run config visitors sources artifacts = .ok ⟨t.findings⟩) ∧
      (∀ error, result = .error error → ∃ i v call reason, visitors[i]? = some v ∧
        t.transcript.toList.getLast? = some call ∧ call.slot = own + i ∧
        call.reaction.failure = some reason ∧
        error = .visitor v.1.name call.event.phase call.event.kind reason) ∧
      (∀ call ∈ t.transcript.toList, call.slot < own → call.reaction.failure = none) ∧
      checkedRun config visitors sources artifacts =
        some (runSession config visitors sources artifacts) ∧
      (∀ todo progress s, Reached config visitors sources artifacts todo progress s →
        s.findings.toModel.InRange) ∧
      t.findings.toModel.InRange ∧
      t.roster.size = own + visitors.length ∧
      (∀ call ∈ t.transcript.toList, call.slot < t.roster.size) ∧
      ∀ phase kind, t.roster.called phase kind = (start config visitors).roster.called phase kind ∧
        ∀ slot ∈ t.roster.called phase kind, slot < t.roster.size := by
  intro own result t
  have sane := runSession_sane config visitors sources artifacts
  have size : t.roster.size = own + visitors.length := by
    rw [← Roster.length_badges, sane.roster, badges_start, List.length_append, List.length_map,
      List.length_map]
  refine ⟨fun quiet => ?_, fun error => blamed_of_runSession, fun call listed early => ?_,
    checkedRun_eq config visitors sources artifacts, fun _ _ _ reached => reached.fits.1.inRange,
    (sane.evolves.sound .empty).inRange, size, fun call listed => ?_,
    fun phase kind => ⟨?_, fun slot called => Roster.lt_of_mem_called called⟩⟩
  · cases ended : result with
    | error error =>
        obtain ⟨i, v, call, reason, -, last, slot, failure, -⟩ := blamed_of_runSession ended
        have foreign : own ≤ call.slot := slot ▸ Nat.le_add_right _ _
        have silent := quiet call (List.mem_of_getLast? last) foreign
        rw [failure] at silent
        cases silent
    | ok done =>
        have whole : runSession config visitors sources artifacts = (.ok (), t) := by rw [← ended]
        rw [run, whole]
        rfl
  · obtain ⟨badge, found, proper⟩ := sane.proper call listed
    exact (proper (own_of_lt early found)).1
  · obtain ⟨badge, found, -⟩ := sane.proper call listed
    rw [← Roster.length_badges, sane.roster]
    exact (List.getElem?_eq_some_iff.mp found).1
  · rw [Roster.called_eq, Roster.called_eq, sane.roster]

end Analysis

end CodeMetrics
