import CodeMetrics.Measure.Cohesion
import CodeMetrics.Measure.Response

/-!
# Visitors

A visitor is told of the events it is interested in.  It remembers what it likes between events,
sees all findings, and answers with a reaction: it may attach measures, record superclasses and
write to the journal, and it may fail.  Nothing else is assumed to be among its effects.

The two visitors of the analysis itself compute the response set and the cohesion of each class.
Any other visitor is external.  The type `σ` of what external visitors remember is a parameter of
every session, so that nothing about the scans depends on it.
-/

namespace CodeMetrics

/-- A visitor that is not part of the analysis itself. -/
structure External (σ : Type) where
  name : String
  /-- The events it is told of; a repeated interest is served repeatedly. -/
  interests : List EventKind
  /-- What it remembers. -/
  memory : σ
  /-- Its answer to an event, with what it remembers from then on. -/
  react : σ → Findings → Event → σ × Reaction

/-- A visitor. -/
inductive Visitor (σ : Type) where
  | response (visitor : ResponseVisitor)
  | cohesion (visitor : CohesionVisitor)
  | external (visitor : External σ)

namespace Visitor

variable {σ : Type}

/-- The name of a visitor in messages. -/
def name : Visitor σ → String
  | .response _ => Metric.rfc.name
  | .cohesion _ => Metric.lcom4.name
  | .external v => v.name

/-- The events a visitor is told of. -/
def interests : Visitor σ → List EventKind
  | .response _ | .cohesion _ => [.type, .method, .reference, .leaveType]
  | .external v => v.interests

/-- A visitor's answer to an event, and the visitor afterwards. -/
def react (v : Visitor σ) (f : Findings) (e : Event) : Visitor σ × Reaction :=
  match v with
  | .response v =>
    let (v, r) := v.react f e
    (.response v, r)
  | .cohesion v =>
    let (v, r) := v.react f e
    (.cohesion v, r)
  | .external v =>
    let (memory, r) := v.react v.memory f e
    (.external { v with memory := memory }, r)

end Visitor

/-- The scans that a visitor is subscribed to. -/
inductive Subscription where
  | source
  | bytecode
  | both
deriving DecidableEq

/-- Whether a subscription includes a scan. -/
def Subscription.includes : Subscription → Phase → Bool
  | .source, .source | .bytecode, .bytecode | .both, _ => true
  | _, _ => false

/-- A visitor with its subscription. -/
structure Subscriber (σ : Type) where
  visitor : Visitor σ
  subscription : Subscription

/-- How often a subscriber is called for one event of one scan. -/
def Subscriber.calls {σ : Type} (s : Subscriber σ) (phase : Phase) (kind : EventKind) : Nat :=
  if s.subscription.includes phase then s.visitor.interests.count kind else 0

/-- The subscribers in the order in which they were subscribed. -/
abbrev Roster (σ : Type) : Type := Array (Subscriber σ)

/-- The positions of the subscribers that an event goes to, in order; one that is called several
times stands there several times. -/
def Roster.called {σ : Type} (r : Roster σ) (phase : Phase) (kind : EventKind) : List Nat :=
  r.toList.zipIdx.flatMap fun (s, slot) => List.replicate (s.calls phase kind) slot

end CodeMetrics
