import CodeMetrics.Proofs.Scan.Attachments

/-!
# What lasts through the scans

Scans attach nothing themselves, and each event they tell of is about an element that is there.  A
property of sessions that can do with this much lasts from the start of a run to its last metrics:
`Session.Persistent` asks that it survives edits that attach nothing and events about known
elements.
-/

namespace CodeMetrics

open Scanning Session

variable {σ : Type} {P : Session σ → Prop} {badges : List Badge}

/-- A property that lasts while the index grows without attachments and visitors are told of known
elements; it also holds when a visitor stops the run. -/
structure Session.Persistent (P : Session σ → Prop) : Prop where
  alter : ∀ {s : Session σ} {f : Findings}, P s → s.findings.index.Grows f.index →
    (∀ h, f.index.measuresOf h = s.findings.index.measuresOf h) → P { s with findings := f }
  dispatch : ∀ {s : Session σ} {e : Event}, P s →
    (∀ {h : Handle}, e.element? = some h → s.findings.index.Knows h) →
    (dispatch e).Runs s (fun _ t => P t) (fun _ t => P t)

namespace Session.Persistent

variable {s : Session σ} {f : Findings}

/-- It is enough that the property survives each answer of a visitor, and each change of the
findings that leaves the measures alone.  Everything else that happens in a run is one of the two.
-/
theorem of_answers
    (alter : ∀ {s : Session σ} {f : Findings}, P s → s.findings.index.Grows f.index →
      (∀ h, f.index.measuresOf h = s.findings.index.measuresOf h) → P { s with findings := f })
    (answered : ∀ {s : Session σ} {e : Event} {slot : Nat} {subscriber : Subscriber σ}, P s →
      (∀ {h : Handle}, e.element? = some h → s.findings.index.Knows h) →
      s.roster[slot]? = some subscriber →
      P (s.answered slot e (subscriber.visitor.react s.findings e))) : Persistent P where
  alter := alter
  dispatch := by
    intro s e holds told
    -- the event is still about a known element when the next visitor is called
    have call (slot : Nat) (t : Session σ)
        (held : P t ∧ s.findings.index.Grows t.findings.index) :
        (call e slot).Runs t (fun _ u => P u ∧ s.findings.index.Grows u.findings.index)
          (fun _ u => P u) := by
      cases found : t.roster[slot]? with
      | none => exact .of_ok (runOn_call_of_none found) held
      | some subscriber =>
          have answers := answered held.1 (fun about => held.2.knows (told about)) found
          have grows := Index.Grows.of_moves
            (t.findings.effects_index_moves (subscriber.visitor.react t.findings e).2.effects)
          cases failure : (subscriber.visitor.react t.findings e).2.failure with
          | none =>
              exact .of_ok (runOn_call_of_quiet found failure) ⟨answers, held.2.trans grows⟩
          | some reason =>
              exact .of_error (runOn_call_of_failure found failure)
                (alter answers (.refl _) fun _ => rfl)
    unfold Runs
    rw [runOn_dispatch]
    refine (Runs.forM (fun _ t => P t ∧ s.findings.index.Grows t.findings.index) _
      ⟨holds, .refl _⟩ fun _ slot t held => call slot t held).mono (fun _ _ ended => ended.1)
      fun _ _ stopped => stopped

/-- Messages, issues and counts do not matter. -/
theorem congr (persistent : Persistent P) (holds : P s) (same : f.index = s.findings.index) :
    P { s with findings := f } := by
  refine persistent.alter holds ?_ fun h => ?_
  · rw [same]
    exact .refl _
  · rw [same]

theorem enriches (persistent : Persistent P) (sane : Sane badges s) (holds : P s)
    (enriches : s.findings.Enriches f) : P { s with findings := f } :=
  persistent.alter holds (enriches.evolves.grows sane.sound) enriches.measures

/-- Visitors are told of an event, and a scan goes on if none of them fails. -/
theorem tell (persistent : Persistent P) (sane : Sane badges s) (holds : P s) {e : Event}
    (known : ∀ {h : Handle}, e.element? = some h → s.findings.index.Knows h) :
    (Scanning.dispatch e).Runs s (fun _ t => Heard s () t ∧ P t) (fun _ t => P t) := by
  have leaving : ∀ visit, e = .leaveType visit → s.findings.index.Knows visit.element := by
    rintro visit rfl
    exact known rfl
  have heard := (sane.dispatch leaving).mono (fun _ _ heard => heard) fun _ _ _ => trivial
  exact ((persistent.dispatch holds known).and heard).mono (fun _ _ told => ⟨told.2, told.1⟩)
    fun _ _ stopped => stopped

end Session.Persistent

/-! ## The source scan -/

/-- A persistent property is kept by every step of the source scan. -/
theorem SourceScan.steps_persistent (badges : List Badge) (persistent : Persistent P) :
    Steps (fun _ s => Underway badges [] s ∧ P s) (fun _ s => P s) where
  coherent held := held.1.sound.index.toCoherent
  say level message held :=
    ⟨held.1.keeps (.say _ level message), persistent.congr held.2 rfl⟩
  skip path message held :=
    ⟨held.1.record (.refl _) (.parseFailed path message), persistent.congr held.2 rfl⟩
  declare {_ s} d held := by
    have keeps : s.findings.Keeps (s.findings.declareFact .source d.key d.kind d.parent).2 :=
      Findings.declareFact_keeps held.1.sound.index.toCoherent fun _ => rfl
    exact ⟨held.1.keeps keeps, persistent.enriches held.1.toSane held.2 keeps.toEnriches⟩
  tell _ _ known held :=
    (persistent.tell held.1.toSane held.2 known).mono
      (fun _ _ told => ⟨held.1.heard told.1, told.2⟩) fun _ _ stopped => stopped
  count held :=
    ⟨held.1.alter (.of_alike ⟨rfl, rfl⟩) rfl rfl, persistent.congr held.2 rfl⟩

/-! ## The bytecode scan -/

/-- A persistent property is kept by every step of the bytecode scan, whether visitors are told of
something or the findings change. -/
theorem BytecodeScan.steps_persistent (badges : List Badge) (persistent : Persistent P) :
    Steps (fun _ _ types s => Underway badges types s ∧ P s)
      (fun _ _ types c type s => Opened badges types c type s ∧ P s) (fun _ s => P s) where
  coherent held := held.1.sound.index.toCoherent
  say level message held :=
    ⟨held.1.keeps (.say _ level message), persistent.congr held.2 rfl⟩
  fail path message kept held :=
    ⟨held.1.record (.refl _) (.decodeFailed path message kept), persistent.congr held.2 rfl⟩
  refuse {_ _ _ s c e f} held resolved := by
    have tacit := s.findings.resolveType_tacit c.key
    rw [resolved] at tacit
    have placed := persistent.enriches held.1.toSane held.2 tacit.toEnriches
    exact ⟨held.1.record tacit.toKeeps _,
      persistent.congr (s := { s with findings := f }) placed rfl⟩
  again {_ _ _ s c type f} path held resolved _ := by
    have tacit := s.findings.resolveType_tacit c.key
    rw [resolved] at tacit
    have placed := persistent.enriches held.1.toSane held.2 tacit.toEnriches
    exact ⟨held.1.record tacit.toKeeps _,
      persistent.congr (s := { s with findings := f }) placed rfl⟩
  enter {_ _ _ s c type f} held resolved new := by
    have tacit := s.findings.resolveType_tacit c.key
    rw [resolved] at tacit
    have sound := tacit.evolves.sound held.1.sound
    have isType := Findings.isType_of_resolveType held.1.sound resolved
    obtain ⟨enriches, -, -⟩ := Findings.openClass_inherits sound isType
    have grows := ((Findings.entered_evolves isType).trans enriches.evolves).grows sound
    have opened := Opened.enter held.1 resolved new
    have placed := persistent.enriches held.1.toSane held.2 tacit.toEnriches
    -- resolving the type and opening the class are both enrichments, one after the other
    have entered : P { s with findings := f.openClass c type } :=
      persistent.alter (s := { s with findings := f }) placed grows enriches.measures
    refine (persistent.tell opened.toSane entered ?_).mono
      (fun _ _ told => ⟨opened.heard told.1, told.2⟩) fun _ _ stopped => stopped
    rintro h ⟨⟩
    exact .of_key? opened.isType.1
  declare {_ _ _ c _ _ m} _ held := by
    have keeps := Findings.declareMember_keeps held.1.sound (c.methodKey m) (.inr rfl) (some c.key)
    exact ⟨held.1.keeps keeps, persistent.enriches held.1.toSane held.2 keeps.toEnriches⟩
  tell inside known held := by
    refine (persistent.tell held.1.toSane held.2 ?_).mono
      (fun _ _ told => ⟨held.1.heard told.1, told.2⟩) fun _ _ stopped => stopped
    intro h about
    cases inside with
    | method phase owner =>
        cases about
        exact known _ rfl
    | reference element =>
        cases about
        rw [element]
        exact .of_key? held.1.isType.1
  refer {_ _ _ c _ _} r held := by
    have keeps := Findings.addReference_keeps held.1.sound c r
    exact ⟨held.1.keeps keeps, persistent.enriches held.1.toSane held.2 keeps.toEnriches⟩
  leave held := by
    refine (persistent.tell held.1.toSane held.2 ?_).mono
      (fun _ _ told => ⟨held.1.toUnderway.heard told.1, told.2⟩) fun _ _ stopped => stopped
    rintro h ⟨⟩
    exact .of_key? held.1.isType.1
  close held := by
    refine (persistent.tell held.1.toSane held.2 ?_).mono
      (fun _ _ told => ⟨held.1.heard told.1, told.2⟩) fun _ _ stopped => stopped
    rintro h ⟨⟩

/-! ## Runs -/

/-- What lasts through the scans holds when a visitor stops a run, and otherwise before its last
metrics. -/
theorem Analysis.scanning_persistent (persistent : Persistent P) {config : Config}
    {visitors : List (External σ × Subscription)} (holds : P (start config visitors))
    (sources : List SourceFile) (artifacts : List Artifact) :
    (scanning sources artifacts).Runs (start config visitors)
      (fun _ t => ∃ types s, Finished (start config visitors).roster.badges types s t ∧ P s)
      (fun _ t => P t) := by
  have first := (SourceScan.steps_persistent _ persistent).run sources
    ⟨start_underway config visitors, holds⟩
  unfold scanning
  refine first.bind fun _ s held => ?_
  have second := (BytecodeScan.steps_persistent _ persistent).run artifacts held
  refine second.bind ?_
  rintro - t ⟨types, underway, holds⟩
  exact .of_ends ((finish_runs underway).mono fun _ _ finished => ⟨types, t, finished, holds⟩)

end CodeMetrics
