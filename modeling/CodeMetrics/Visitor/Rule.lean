import CodeMetrics.Visitor

/-!
# Rule-driven visitors

A visitor that is described by data.  It counts the events it handles, may observe each of them, and
then follows its rules in order: a rule that matches the event carries out its action on a target,
which is the rule's own or else the element of the event.
-/

namespace CodeMetrics

/-- An element given by its handle or by its key. -/
inductive Address where
  | handle (handle : Handle)
  /-- A key, with the handle that is meant when the key is unknown. -/
  | key (key : String) (otherwise : Handle)
deriving DecidableEq

/-- The handle of an address. -/
def Address.resolve (ix : Index) : Address → Handle
  | .handle h => h
  | .key k otherwise => (ix.handle? k).getD otherwise

/-- What a rule does. -/
inductive RuleAction where
  /-- Fails with a message. -/
  | fail (message : String)
  /-- Attaches a measure to the target. -/
  | attach (name : String) (value : Measure)
  /-- Attaches the number of events handled so far to the target. -/
  | count (name : String)
  /-- Records the superclass of the target. -/
  | superclass (superclass : Option Address)
  /-- Observes the size of the analysis. -/
  | probe

/-- A rule; tests that are left out always hold. -/
structure Rule where
  event : Option EventKind := none
  key : Option String := none
  /-- Which of the events handled it applies to, counted from one. -/
  nth : Option Nat := none
  /-- The target, if it is not the element of the event. -/
  target : Option Address := none
  action : RuleAction

/-- Whether a rule applies to the event that is number `seen` of those handled. -/
def Rule.applies (r : Rule) (e : Event) (seen : Nat) : Bool :=
  r.event.all (· == e.kind) && r.key.all (· == e.key) && r.nth.all (· == seen)

/-- The description of a rule-driven visitor. -/
structure RuleBook where
  /-- The name in messages. -/
  name : String
  /-- The name in observations. -/
  label : String
  interests : List EventKind := EventKind.all
  /-- The events it handles; any other passes without a trace. -/
  handles : List EventKind := EventKind.all
  /-- Whether it observes the events it handles. -/
  observes : Bool := true
  rules : List Rule := []

namespace RuleBook

/-- A reaction under way, with the findings as its effects leave them. -/
structure Step where
  findings : Findings
  reaction : Reaction := {}

namespace Step

/-- Adds an effect. -/
def perform (s : Step) (effect : Effect) : Step where
  findings := effect.apply s.findings
  reaction := { s.reaction with effects := s.reaction.effects ++ [effect] }

/-- Adds an observation. -/
def observe (s : Step) (o : Observation) : Step :=
  { s with reaction := { s.reaction with observations := s.reaction.observations ++ [o] } }

/-- Fails. -/
def fail (s : Step) (message : String) : Step :=
  { s with reaction := { s.reaction with failure := some message } }

/-- Attaches a measure, or fails if the element is unknown. -/
def attach (s : Step) (h : Handle) (name : String) (value : Measure) : Step :=
  match s.findings.attachMeasure h name value with
  | .ok _ => s.perform (.attach h name value)
  | .error e => s.fail e.message

end Step

/-- Carries out a rule that applies.  An action that needs a target is left out without one. -/
def carryOut (b : RuleBook) (e : Event) (seen : Nat) (s : Step) (r : Rule) : Step :=
  let target := (r.target.map (·.resolve s.findings.index)).or e.element?
  match r.action, target with
  | .fail message, _ => s.fail message
  | .probe, target => s.observe (.probed b.label (s.findings.probe target))
  | .attach name value, some h => s.attach h name value
  | .count name, some h => s.attach h name (.ofCount seen)
  | .superclass above, some h =>
    s.perform (.superclass h (above.map (·.resolve s.findings.index)))
  | _, none => s

/-- Follows a rule, unless the visitor has failed or the rule does not apply. -/
def follow (b : RuleBook) (e : Event) (seen : Nat) (s : Step) (r : Rule) : Step :=
  if s.reaction.failure.isNone && r.applies e seen then b.carryOut e seen s r else s

/-- The answer to an event; the visitor remembers how many events it has handled. -/
def react (b : RuleBook) (handled : Nat) (f : Findings) (e : Event) : Nat × Reaction :=
  if b.handles.contains e.kind then
    let seen := handled + 1
    let opening : Step := { findings := f }
    let start := if b.observes then opening.observe (.saw b.label e) else opening
    (seen, (b.rules.foldl (b.follow e seen) start).reaction)
  else (handled, .none)

/-- The visitor that follows a rule book. -/
def visitor (b : RuleBook) : External Nat where
  name := b.name
  interests := b.interests
  memory := 0
  react := b.react

end RuleBook

end CodeMetrics
