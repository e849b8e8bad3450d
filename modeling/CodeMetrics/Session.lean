import CodeMetrics.Visitor

/-!
# Sessions

A session is an analysis under way: its findings, its visitors, and a transcript of every call that
was made to a visitor.  Scans run as computations over a session that stop at the first failure of a
visitor; what was done until then stays in the session.
-/

namespace CodeMetrics

/-- Why an analysis stopped. -/
inductive RunError where
  | visitor (name : String) (phase : Phase) (event : EventKind) (reason : String)
  | index (error : IndexError)
deriving DecidableEq

/-- The wording of a run error. -/
def RunError.message : RunError → String
  | .visitor name phase event reason =>
    s!"visitor {name} failed on {event.text} during {phase.name} scan: {reason}"
  | .index error => error.message

/-- A call to a visitor. -/
structure Callback where
  /-- The position of the visitor in the roster. -/
  slot : Nat
  event : Event
  /-- What the visitor answered. -/
  reaction : Reaction
deriving DecidableEq

/-- An analysis under way. -/
structure Session (σ : Type) where
  findings : Findings := {}
  roster : Roster σ := #[]
  /-- The calls made so far, in order. -/
  transcript : Array Callback := #[]

/-- All observations of a session, in order. -/
def Session.observations {σ : Type} (s : Session σ) : List Observation :=
  s.transcript.toList.flatMap (·.reaction.observations)

/-- A computation over a session that keeps the session when it fails. -/
abbrev Scanning (σ : Type) : Type → Type := ExceptT RunError (StateM (Session σ))

namespace Scanning

variable {σ : Type}

/-- The findings so far. -/
def findings : Scanning σ Findings := Session.findings <$> get

/-- Changes the findings and gives an answer. -/
def edit {α : Type} (change : Findings → α × Findings) : Scanning σ α :=
  modifyGet fun s =>
    let (a, f) := change s.findings
    (a, { s with findings := f })

/-- Changes the findings. -/
def alter (change : Findings → Findings) : Scanning σ Unit :=
  modify fun s => { s with findings := change s.findings }

/-- The message about a visitor that failed. -/
def failureMessage (name : String) (e : Event) (reason : String) : String :=
  s!"Visitor {name} failed on {e.kind.text} ({e.phase.name} scan): {reason}"

/-- Tells the visitor of one slot of an event. -/
def call (e : Event) (slot : Nat) : Scanning σ Unit := do
  let s ← get
  match s.roster[slot]? with
  | none => pure ()
  | some subscriber =>
    let (visitor, reaction) := subscriber.visitor.react s.findings e
    set { s with
      findings := reaction.effects.foldl Effect.apply s.findings
      roster := s.roster.modify slot fun entry => { entry with visitor := visitor }
      transcript := s.transcript.push ⟨slot, e, reaction⟩ }
    match reaction.failure with
    | none => pure ()
    | some reason =>
      alter (·.say .error (failureMessage visitor.name e reason))
      throw (.visitor visitor.name e.phase e.kind reason)

/-- Tells all subscribed visitors of an event, in the order of their subscription. -/
def dispatch (e : Event) : Scanning σ Unit := do
  let s ← get
  (s.roster.called e.phase e.kind).forM (call e)

/-- Runs a scanning computation on a session. -/
def runOn {α : Type} (x : Scanning σ α) (s : Session σ) : Except RunError α × Session σ :=
  (ExceptT.run x).run s

end Scanning

end CodeMetrics
