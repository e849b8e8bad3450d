import CodeMetrics.Proofs.Scan.Recounting
import CodeMetrics.Proofs.Scan.Safety

/-!
# The protocol of visitors

A visitor that listens to everything receives the story of the run, no more and no less.  All
visitors that an event goes to are called before the next event, in the order of their subscription.
-/

namespace CodeMetrics

variable {σ : Type}

/-! ## Who is called -/

namespace Badge

/-- Visitors are called in the order of their subscription. -/
theorem pairwise_called (badges : List Badge) (phase : Phase) (kind : EventKind) :
    (called badges phase kind).Pairwise (· ≤ ·) := by
  have ascending : badges.zipIdx.Pairwise fun a b => a.2 < b.2 := by
    refine List.pairwise_map.mp ?_
    rw [List.zipIdx_map_snd]
    exact List.pairwise_lt_range'
  refine List.pairwise_flatMap.mpr ⟨fun entry _ => ?_, ascending.imp fun before => ?_⟩
  · exact List.pairwise_replicate.mpr (.inr le_rfl)
  · intro x hx y hy
    rw [List.eq_of_mem_replicate hx, List.eq_of_mem_replicate hy]
    exact before.le

/-- A visitor is called as often as its badge says: once for each time that the kind of the event is
among its interests, and never in a scan that it is not subscribed to. -/
theorem count_called {badges : List Badge} {slot : Nat} {badge : Badge}
    (found : badges[slot]? = some badge) (phase : Phase) (kind : EventKind) :
    (called badges phase kind).count slot = badge.calls phase kind := by
  -- the slots are numbered from any start, so that the induction can go on behind the first
  suffices general : ∀ (badges : List Badge) (first n : Nat), badges[n]? = some badge →
      ((badges.zipIdx first).flatMap fun entry =>
        List.replicate (entry.1.calls phase kind) entry.2).count (first + n) =
          badge.calls phase kind by
    have counted := general badges 0 slot found
    rw [Nat.zero_add] at counted
    exact counted
  intro badges
  induction badges with
  | nil =>
      intro first n found
      cases found
  | cons b rest ih =>
      intro first n found
      rw [List.zipIdx_cons, List.flatMap_cons, List.count_append, List.count_replicate]
      cases n with
      | zero =>
          cases found
          have others : first + 0 ∉ (rest.zipIdx (first + 1)).flatMap fun entry =>
              List.replicate (entry.1.calls phase kind) entry.2 := by
            intro listed
            obtain ⟨entry, later, repeated⟩ := List.mem_flatMap.mp listed
            have bound := List.le_snd_of_mem_zipIdx later
            rw [← List.eq_of_mem_replicate repeated] at bound
            omega
          rw [List.count_eq_zero.mpr others]
          simp
      | succ n =>
          have after := ih (first + 1) n found
          rw [Nat.add_right_comm] at after
          have other : first ≠ first + n + 1 := by omega
          rw [← Nat.add_assoc, after]
          simp [other]

end Badge

namespace Session

/-- What the visitor of one slot was told, in order. -/
def received (s : Session σ) (slot : Nat) : List Event :=
  (s.transcript.toList.filter (·.slot == slot)).map Callback.event

theorem received_eq_told (s : Session σ) (slot : Nat) :
    s.received slot = (s.told.filter (·.1 == slot)).map Prod.snd := by
  rw [received, told, List.filter_map, List.map_map]
  rfl

/-- A visitor receives every event as often as its badge says. -/
theorem received_eq {s : Session σ} {badges : List Badge} {events : List Event} {slot : Nat}
    {badge : Badge} (told : s.told = events.flatMap (Badge.deliveries badges))
    (found : badges[slot]? = some badge) :
    s.received slot = events.flatMap fun e => List.replicate (badge.calls e.phase e.kind) e := by
  rw [received_eq_told, told, List.filter_flatMap, List.map_flatMap]
  refine List.flatMap_congr fun e _ => ?_
  have slots : ((Badge.deliveries badges e).filter (·.1 == slot)) =
      ((Badge.called badges e.phase e.kind).filter (· == slot)).map (·, e) := by
    rw [Badge.deliveries, List.filter_map]
    rfl
  rw [slots, List.map_map, ← Badge.count_called found, List.count_eq_length_filter]
  exact List.map_const' ..

end Session

namespace Analysis

variable {config : Config} {visitors : List (External σ × Subscription)}
  {sources : List SourceFile} {artifacts : List Artifact}

/-- A run in which no visitor fails gives an analysis. -/
theorem runSession_ok_of_quiet
    (quiet : ∀ call ∈ (runSession config visitors sources artifacts).2.transcript.toList,
      call.reaction.failure = none) :
    (runSession config visitors sources artifacts).1 = .ok () := by
  cases ended : (runSession config visitors sources artifacts).1 with
  | ok done => rfl
  | error error =>
      obtain ⟨i, v, call, reason, -, last, -, failure, -⟩ := blamed_of_runSession ended
      rw [quiet call (List.mem_of_getLast? last)] at failure
      cases failure

/-- The badge of an external visitor. -/
theorem badge_external {i : Nat} {v : External σ × Subscription} (listed : visitors[i]? = some v) :
    (start config visitors).roster.badges[(ownVisitors config : List (Subscriber σ)).length + i]? =
      some ⟨false, v.1.name, v.1.interests, v.2⟩ := by
  rw [badges_start, List.getElem?_append_right (by rw [List.length_map]; exact Nat.le_add_right ..),
    List.length_map, Nat.add_sub_cancel_left, List.getElem?_map, listed]
  rfl

/-- **The protocol of visitors.**  In a run in which no visitor fails, a visitor that is subscribed
to both scans and interested in every event once receives exactly the story of the run: all calls are
the events of one list, each delivered to everyone it goes to, in the order of subscription, before
the next.  In the bytecode scan every type is left before another is entered, and none is entered
twice. -/
theorem visitors_are_told_story (config : Config) (visitors : List (External σ × Subscription))
    (sources : List SourceFile) (artifacts : List Artifact)
    (quiet : ∀ call ∈ (runSession config visitors sources artifacts).2.transcript.toList,
      call.reaction.failure = none) :
    let own := (ownVisitors config : List (Subscriber σ)).length
    let roster := (start config visitors).roster
    let t := (runSession config visitors sources artifacts).2
    run config visitors sources artifacts = .ok ⟨t.findings⟩ ∧
      ∃ events : List Event,
        events.map Event.unowned = story t.findings.index sources artifacts ∧
        (∀ i v, visitors[i]? = some (v, .both) → (∀ kind, v.interests.count kind = 1) →
          t.received (own + i) = events) ∧
        t.transcript.toList.map (fun call => (call.slot, call.event)) =
          events.flatMap (fun e => (roster.called e.phase e.kind).map (·, e)) ∧
        (∀ phase kind, (roster.called phase kind).Pairwise (· ≤ ·) ∧
          ∀ slot subscriber, roster[slot]? = some subscriber →
            (roster.called phase kind).count slot = subscriber.calls phase kind) ∧
        ∃ visits : List TypeVisit,
          events.filter Event.bounds = visits.flatMap (fun v => [.type v, .leaveType v]) ∧
          (visits.map TypeVisit.element).Nodup ∧ (visits.map TypeVisit.key).Nodup := by
  intro own roster t
  have ended := runSession_ok_of_quiet quiet
  have session : (scanning sources artifacts).runOn (start config visitors) = (.ok (), t) := by
    rw [← ended]
    rfl
  have sane := runSession_sane config visitors sources artifacts
  obtain ⟨events, told, same⟩ := (scanning_tells config visitors sources artifacts).ok session
  refine ⟨?_, events, same, ?_, ?_, ?_, ?_⟩
  · have whole : runSession config visitors sources artifacts = (.ok (), t) := session
    rw [run, whole]
    rfl
  · intro i v listed once
    rw [Session.received_eq told (badge_external listed)]
    have calls (e : Event) : (Badge.mk false v.name v.interests .both).calls e.phase e.kind = 1 :=
      once e.kind
    simp only [calls, List.replicate_one, List.flatMap_singleton']
  · simp only [roster, Roster.called_eq]
    exact told
  · intro phase kind
    rw [Roster.called_eq]
    refine ⟨Badge.pairwise_called _ phase kind, fun slot subscriber found => ?_⟩
    exact Badge.count_called (Roster.badge_of_getElem? found) phase kind
  · refine ⟨visits t.findings.index artifacts, ?_, ?_, nodup_key_visits _ artifacts⟩
    · rw [← Event.filter_bounds_unowned, same, filter_story]
    · exact nodup_element_visits sane.sound.index.toCoherent artifacts

/-! ### Two visitors that listen to everything -/

/-- A visitor that listens to everything. -/
def listener (name : String) : External Unit where
  name := name
  interests := EventKind.all
  memory := ()
  react _ _ _ := ((), .none)

def listeners : List (External Unit × Subscription) :=
  [(listener "first", .both), (listener "second", .both)]

/-- A method that has the key of a field is refused. -/
def fieldFirst : List SourceFile :=
  [{ path := "A.java", result := .ok
      [.type "p/A" none, .field "p/A" "x", .method "p/A" "x", .method "p/A" "m()V"] },
    { path := "B.java", result := .error (.parser "empty") }]

/-- A class with a method that is refused and with a repeated site is decoded twice.  Another class
is refused. -/
def refusals : List Artifact :=
  let body : List Reference := [.call ⟨1, "p/B", "f()V"⟩, .access ⟨1, "p/B", "y"⟩]
  let c : ClassFacts :=
    { key := "p/A", superclass := none, interfaces := [], fields := []
      methods := [⟨"x", body⟩, ⟨"m()V", body⟩] }
  [{ path := "one.jar", classes := [c, c, { c with key := "p/A#x" }], error := none }]

theorem visitors_are_told_story_refusals :
    (∀ call ∈ (runSession {} listeners fieldFirst refusals).2.transcript.toList,
        call.reaction.failure = none) ∧
      ∃ t : Session Unit, (runSession {} listeners fieldFirst refusals).2 = t ∧
        run {} listeners fieldFirst refusals = .ok ⟨t.findings⟩ ∧
        ∀ slot ∈ [2, 3], ((t.received slot).map Event.unowned).map (fun e => (e.kind, e.key)) =
          [(.type, "p/A"), (.method, "p/A#m()V"), (.endScan, "source"), (.type, "p/A"),
            (.method, "p/A#m()V"), (.reference, "p/A#m()V"), (.leaveType, "p/A"),
            (.endScan, "bytecode")] := by
  have quiet : ∀ call ∈ (runSession {} listeners fieldFirst refusals).2.transcript.toList,
      call.reaction.failure = none := by decide +kernel
  have evaluated : (story (runSession {} listeners fieldFirst refusals).2.findings.index fieldFirst
      refusals).map (fun e => (e.kind, e.key)) =
        [(.type, "p/A"), (.method, "p/A#m()V"), (.endScan, "source"), (.type, "p/A"),
          (.method, "p/A#m()V"), (.reference, "p/A#m()V"), (.leaveType, "p/A"),
          (.endScan, "bytecode")] := by decide +kernel
  obtain ⟨ran, events, same, received, -⟩ :=
    visitors_are_told_story {} listeners fieldFirst refusals quiet
  have interested : ∀ kind, EventKind.all.count kind = 1 := by
    intro kind
    cases kind <;> rfl
  refine ⟨quiet, _, rfl, ran, fun slot listed => ?_⟩
  generalize (runSession {} listeners fieldFirst refusals).2 = t at evaluated same received ⊢
  rw [List.mem_pair] at listed
  rcases listed with rfl | rfl
  · have first : t.received 2 = events := received 0 (listener "first") rfl interested
    rw [first, same, evaluated]
  · have second : t.received 3 = events := received 1 (listener "second") rfl interested
    rw [second, same, evaluated]

end Analysis

end CodeMetrics
