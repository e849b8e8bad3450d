import CodeMetrics.Proofs.Scan.Abreast
import CodeMetrics.Proofs.Scan.Safety

/-!
# Runs with fewer items

Some items of an agenda can be left out, and a run without external visitors stays abreast of the one
that has them: the messages always, the failures of inputs if the reports may differ by them.  Two
agendas that come to the same list when such items are left out therefore come to the same analysis.

`Analysis.outcome` is the outcome of a run without external visitors, for any list of items.
-/

namespace CodeMetrics

open BytecodeScan (Progress)
open Scanning

variable {σ α : Type} {issues : Issue → Prop} {related : Report → Report → Prop}

/-! ## Items that can be left out -/

namespace Item

/-- Whether an item is a message. -/
def isMessage : Item → Bool
  | .say .. => true
  | _ => false

/-- The issue of an input that could not be read to its end. -/
def failure? : Item → Option Issue
  | .failure i => some i
  | _ => none

/-- Whether an item leaves the report as it is. -/
def isQuiet : Item → Bool
  | .say .. | .scanEnd _ => true
  | _ => false

/-- An item that does not matter to sessions that are abreast. -/
inductive Spare (related : Report → Report → Prop) : Item → Prop where
  | say (level : Level) (message : Findings → String) : Spare related (.say level message)
  | failure {i : Issue} (unnoticed : ∀ {r r'}, related r r' → related (r.record i) r') :
      Spare related (.failure i)

/-- A spare item leaves the session abreast with what it was before. -/
theorem Spare.carryOut {item : Item} (spare : Spare related item) (progress : Progress)
    {s t : Session σ} (abreast : s.Abreast related t) :
    ∃ u : Session σ, (item.carryOut progress).runOn s = (.ok progress, u) ∧
      u.Abreast related t := by
  have agrees := abreast.findings
  cases spare with
  | say level message =>
      refine ⟨_, runOn_bind_of_ok (runOn_alter _), ?_, abreast.roster, abreast.own⟩
      exact ⟨⟨agrees.model.index, agrees.model.graph⟩, agrees.config, agrees.superclasses,
        agrees.report⟩
  | failure unnoticed =>
      refine ⟨_, runOn_bind_of_ok (runOn_alter _), ?_, abreast.roster, abreast.own⟩
      exact ⟨⟨agrees.model.index, agrees.model.graph⟩, agrees.config, agrees.superclasses,
        unnoticed agrees.report⟩

/-- Items that are left out are not missed.  The run that leaves them out stays abreast with the one
that carries them out, over each kept item because both carry it out, and over each other one
because it is spare. -/
theorem foldlM_filter (lasting : Report.Lasting issues related)
    (ordinary : ∀ i : Issue, i.isFailure = false → issues i) {keep : Item → Bool}
    {items : List Item} (kept : ∀ i, .failure i ∈ items.filter keep → issues i)
    (spare : ∀ item ∈ items, keep item = false → Spare related item) (progress : Progress)
    {s t : Session σ} (abreast : s.Abreast related t) :
    Joined related ((items.foldlM carryOut progress).runOn s)
      (((items.filter keep).foldlM carryOut progress).runOn t) := by
  induction items generalizing progress s t with
  | nil => exact ⟨rfl, abreast⟩
  | cons item rest ih =>
      have spare' := fun item listed => spare item (List.mem_cons_of_mem _ listed)
      cases keeps : keep item with
      | false =>
          rw [List.filter_cons_of_neg (by rw [keeps]; exact Bool.false_ne_true)] at kept ⊢
          obtain ⟨u, run, abreast'⟩ :=
            (spare item (List.mem_cons_self ..) keeps).carryOut progress abreast
          rw [List.foldlM_cons, runOn_bind_of_ok run]
          exact ih kept spare' progress abreast'
      | true =>
          rw [List.filter_cons_of_pos keeps] at kept ⊢
          have made : Made issues (item.carryOut progress : Scanning σ _) :=
            .carryOut ordinary (fun i is => kept i (is ▸ List.mem_cons_self ..)) progress
          have kept' := fun i listed => kept i (List.mem_cons_of_mem _ listed)
          rw [List.foldlM_cons, List.foldlM_cons]
          -- the first item may stop both runs
          obtain ⟨same, abreast'⟩ := made.parallel lasting ordinary s t abreast
          rcases run : (item.carryOut progress).runOn s with ⟨answer, s'⟩
          rcases run' : (item.carryOut progress).runOn t with ⟨answer', t'⟩
          rw [run, run'] at same abreast'
          obtain rfl : answer = answer' := same
          cases answer with
          | error e =>
              rw [runOn_bind_of_error run, runOn_bind_of_error run']
              exact ⟨rfl, abreast'⟩
          | ok progress' =>
              rw [runOn_bind_of_ok run, runOn_bind_of_ok run']
              exact ih kept' spare' progress' abreast'

/-- Lists of items that differ by messages only come to the same, since a journal is never read. -/
theorem foldlM_messages (lasting : Report.Lasting (fun _ => True) related) {items items' : List Item}
    (same : items.filter (!·.isMessage) = items'.filter (!·.isMessage)) (progress : Progress)
    {s t : Session σ} (abreast : s.Abreast related t) :
    Joined related ((items.foldlM carryOut progress).runOn s)
      ((items'.foldlM carryOut progress).runOn t) := by
  have spare {related : Report → Report → Prop} (items : List Item) :
      ∀ item ∈ items, (!item.isMessage) = false → Spare related item := by
    rintro item - dropped
    cases item with
    | say level message => exact .say level message
    | declaration d => cases dropped
    | fileEnd => cases dropped
    | failure i => cases dropped
    | decoded path c => cases dropped
    | scanEnd phase => cases dropped
  have always : Report.Lasting (fun _ => True) Eq := Report.lasting_eq
  have joined := foldlM_filter lasting (fun _ _ => trivial) (fun _ _ => trivial) (spare items)
    progress abreast
  have joined' := foldlM_filter always (fun _ _ => trivial) (fun _ _ => trivial) (spare items')
    progress (abreast.isOwn.abreast rfl)
  rw [← same] at joined'
  exact joined.of_eq joined'

end Item

/-! ## What becomes of the report -/

namespace Scanning

variable {x : Scanning σ α} {s : Session σ}

/-- A property of the report that a computation keeps in sessions abreast. -/
theorem Parallel.report (holds : Report → Prop) (parallel : Parallel (fun r _ => holds r) x)
    (own : s.IsOwn) (start : holds s.findings.report) :
    holds (x.runOn s).2.findings.report :=
  (parallel s s (own.abreast start)).2.findings.report

theorem Parallel.isOwn (parallel : Parallel (fun _ _ => True) x) (own : s.IsOwn) :
    (x.runOn s).2.IsOwn :=
  (parallel s s (own.abreast trivial)).2.own

/-- Issues are never taken back. -/
theorem Made.issues_grow (made : Made (fun _ => True) x) (own : s.IsOwn) :
    s.findings.report.issues.toList <+: (x.runOn s).2.findings.report.issues.toList := by
  have lasting : Report.Lasting (fun _ => True) fun r _ =>
      s.findings.report.issues.toList <+: r.issues.toList :=
    { record := fun {r _ i} _ early => by
        rw [Report.record, Array.toList_push]
        exact early.trans (List.prefix_append ..)
      files := id
      classes := id }
  exact (made.parallel lasting fun _ _ => trivial).report
    (s.findings.report.issues.toList <+: ·.issues.toList) own List.prefix_rfl

/-- The end of a run leaves the report as it is. -/
theorem parallel_finish : Parallel related (Analysis.finish : Scanning σ Unit) := by
  rw [Analysis.finish_eq]
  refine Parallel.bind (fun s t abreast => ?_) fun e => ?_
  · obtain ⟨same, agrees⟩ := abreast.findings.conclude
    rw [runOn_edit, runOn_edit, same]
    exact ⟨rfl, agrees, abreast.roster, abreast.own⟩
  · cases e with
    | none => exact fun s t abreast => ⟨rfl, abreast⟩
    | some e => exact fun s t abreast => ⟨rfl, abreast⟩

theorem parallel_quiet {item : Item} (quiet : item.isQuiet = true) (progress : Progress) :
    Parallel related (item.carryOut progress : Scanning σ Progress) := by
  cases item with
  | say level message =>
      exact fun s t abreast => ⟨rfl, abreast.findings.say _ _ _, abreast.roster, abreast.own⟩
  | scanEnd phase => exact (Parallel.dispatch _).bind fun _ s t abreast => ⟨rfl, abreast⟩
  | declaration d => cases quiet
  | fileEnd => cases quiet
  | failure i => cases quiet
  | decoded path c => cases quiet

theorem parallel_quiets {items : List Item} (quiet : ∀ item ∈ items, item.isQuiet = true)
    (progress : Progress) :
    Parallel related (items.foldlM Item.carryOut progress : Scanning σ Progress) := by
  induction items generalizing progress with
  | nil => exact fun s t abreast => ⟨rfl, abreast⟩
  | cons item rest ih =>
      rw [List.foldlM_cons]
      exact (parallel_quiet (quiet item (List.mem_cons_self ..)) progress).bind
        (ih fun item listed => quiet item (List.mem_cons_of_mem _ listed))

end Scanning

/-! ## Outcomes -/

namespace Analysis

open Session

/-- What a run still has to do: some items, and its end. -/
def remaining (items : List Item) (progress : Progress) : Scanning σ Unit :=
  items.foldlM Item.carryOut progress >>= fun _ => finish

theorem remaining_append (front rest : List Item) (progress : Progress) :
    (remaining (front ++ rest) progress : Scanning σ Unit) =
      front.foldlM Item.carryOut progress >>= remaining rest := by
  rw [remaining, List.foldlM_append, bind_assoc]
  rfl

theorem remaining_cons (item : Item) (rest : List Item) (progress : Progress) :
    (remaining (item :: rest) progress : Scanning σ Unit) =
      item.carryOut progress >>= remaining rest := by
  rw [remaining, List.foldlM_cons, bind_assoc]
  rfl

theorem made_remaining (items : List Item) (progress : Progress) :
    Made (fun _ => True) (remaining items progress : Scanning σ Unit) :=
  .bind (.items items progress) fun _ => .finish

/-- The outcome of a run without external visitors over a list of items. -/
def outcome (config : Config) (items : List Item) : Except RunError Unit × Session σ :=
  (remaining items {}).runOn (start config [])

variable {config : Config} {items front rest : List Item}

theorem runSession_eq (config : Config) (sources : List SourceFile) (artifacts : List Artifact) :
    (runSession config [] sources artifacts : Except RunError Unit × Session σ) =
      outcome config (agenda sources artifacts) := by
  rw [runSession, scanning_eq]
  rfl

/-- Without external visitors there is nobody to stop a run. -/
theorem outcome_ok (config : Config) (sources : List SourceFile) (artifacts : List Artifact) :
    (outcome config (agenda sources artifacts) : Except RunError Unit × Session σ).1 = .ok () := by
  rw [← runSession_eq]
  cases ended : (runSession config [] sources artifacts : Except RunError Unit × Session σ).1 with
  | error e =>
      obtain ⟨i, v, call, reason, listed, -⟩ := blamed_of_runSession ended
      cases listed
  | ok done => rfl

theorem run_eq (config : Config) (sources : List SourceFile) (artifacts : List Artifact) :
    run config ([] : List (External σ × Subscription)) sources artifacts =
      .ok ⟨(outcome config (agenda sources artifacts) :
        Except RunError Unit × Session σ).2.findings⟩ := by
  have ended : outcome config (agenda sources artifacts) =
      (.ok (), (outcome config (agenda sources artifacts) :
        Except RunError Unit × Session σ).2) := Prod.ext (outcome_ok config sources artifacts) rfl
  rw [run, runSession_eq, ended]
  rfl

theorem start_isOwn (config : Config) : (start config [] : Session σ).IsOwn := by
  intro n subscriber found
  have badge := Roster.badge_of_getElem? found
  have inside := (List.getElem?_eq_some_iff.mp badge).1
  rw [badges_start, List.map_nil, List.append_nil, List.length_map] at inside
  exact own_of_lt inside badge

theorem start_abreast (config : Config) (holds : related {} {}) :
    (start config [] : Session σ).Abreast related (start config []) :=
  (start_isOwn config).abreast holds

/-- A run over a list of items gets through every initial part of the list. -/
theorem exists_of_outcome_ok
    (ended : (outcome config (front ++ rest) : Except RunError Unit × Session σ).1 = .ok ()) :
    ∃ progress, ∃ s : Session σ,
      (front.foldlM Item.carryOut {}).runOn (start config []) = (.ok progress, s) ∧
      outcome config (front ++ rest) = (remaining rest progress).runOn s := by
  unfold outcome at ended ⊢
  rw [remaining_append] at ended ⊢
  exact exists_of_bind_ok ended

/-- A run that stops short ends with the report that a longer one has at this point. -/
theorem report_of_front {front' ends : List Item} {progress : Progress} {s : Session σ}
    (run : (front.foldlM Item.carryOut {}).runOn (start config []) = (.ok progress, s))
    (same : front'.filter (!·.isMessage) = front.filter (!·.isMessage))
    (quiet : ∀ item ∈ ends, item.isQuiet = true)
    (ended : (outcome config (front' ++ ends) : Except RunError Unit × Session σ).1 = .ok ()) :
    (outcome config (front' ++ ends) : Except RunError Unit × Session σ).2.findings.report =
      s.findings.report := by
  obtain ⟨progress', s', run', whole⟩ := exists_of_outcome_ok ended
  have always : Report.Lasting (fun _ => True) Eq := Report.lasting_eq
  have joined := Item.foldlM_messages always same (σ := σ) {} (start_abreast config rfl)
  rw [run, run'] at joined
  obtain ⟨-, abreast⟩ := joined
  -- nothing is reported after the last item
  have stays : ((remaining ends progress').runOn s').2.findings.report = s'.findings.report :=
    ((parallel_quiets quiet progress').bind fun _ => parallel_finish).report
      (· = s'.findings.report) abreast.own rfl
  rw [whole, stays, abreast.findings.report]

/-- At every point of its agenda a run is without external visitors. -/
theorem isOwn_of_front {progress : Progress} {s : Session σ}
    (run : (front.foldlM Item.carryOut {}).runOn (start config []) = (.ok progress, s)) :
    s.IsOwn := by
  have any : Report.Lasting (fun _ => True) fun _ _ => True := ⟨fun _ => id, id, id⟩
  have own := ((Made.items (σ := σ) front {}).parallel any fun _ _ => trivial).isOwn
    (start_isOwn config)
  rw [run] at own
  exact own

/-- The issues of a run that stops short come first, and then the next failure, and then whatever
the rest of the run adds. -/
theorem issues_before_failure {front' ends : List Item} {i : Issue}
    (same : front'.filter (!·.isMessage) = front.filter (!·.isMessage))
    (quiet : ∀ item ∈ ends, item.isQuiet = true)
    (ended : (outcome config (front ++ .failure i :: rest) :
      Except RunError Unit × Session σ).1 = .ok ())
    (ended' : (outcome config (front' ++ ends) : Except RunError Unit × Session σ).1 = .ok ()) :
    ∃ later, (outcome config (front ++ .failure i :: rest) :
        Except RunError Unit × Session σ).2.findings.report.issues.toList =
      (outcome config (front' ++ ends) :
        Except RunError Unit × Session σ).2.findings.report.issues.toList ++ i :: later := by
  obtain ⟨progress, s, run, whole⟩ := exists_of_outcome_ok ended
  have first : (Item.carryOut progress (.failure i) : Scanning σ Progress).runOn s =
      (.ok progress, { s with findings := s.findings.record i }) :=
    runOn_bind_of_ok (runOn_alter _)
  have own : s.IsOwn := isOwn_of_front run
  obtain ⟨later, split⟩ := (made_remaining rest progress).issues_grow
    (show Session.IsOwn { s with findings := s.findings.record i } from own)
  rw [report_of_front run same quiet ended', whole, remaining_cons, runOn_bind_of_ok first, ← split,
    Findings.record, Report.record, Array.toList_push, List.append_assoc]
  exact ⟨later, rfl⟩

/-- The outcome of a run does not depend on spare items: without them it ends alike, with findings
that agree. -/
theorem outcome_filter (lasting : Report.Lasting issues related) (holds : related {} {})
    (ordinary : ∀ i : Issue, i.isFailure = false → issues i) {keep : Item → Bool}
    (kept : ∀ i, .failure i ∈ items.filter keep → issues i)
    (spare : ∀ item ∈ items, keep item = false → item.Spare related) :
    Joined related (outcome config items : Except RunError Unit × Session σ)
      (outcome config (items.filter keep)) := by
  have joined := Item.foldlM_filter (σ := σ) lasting ordinary kept spare {}
    (start_abreast config holds)
  unfold outcome remaining
  rcases run : (items.foldlM Item.carryOut {}).runOn (start config [] : Session σ) with ⟨answer, s⟩
  rcases run' : ((items.filter keep).foldlM Item.carryOut {}).runOn
    (start config [] : Session σ) with ⟨answer', t⟩
  rw [run, run'] at joined
  obtain ⟨rfl, abreast⟩ := joined
  cases answer with
  | error e =>
      rw [runOn_bind_of_error run, runOn_bind_of_error run']
      exact ⟨rfl, abreast⟩
  | ok progress =>
      rw [runOn_bind_of_ok run, runOn_bind_of_ok run']
      exact parallel_finish s t abreast

end Analysis

end CodeMetrics
