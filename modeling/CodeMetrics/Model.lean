import CodeMetrics.Graph

/-!
# The model of a program

The index of elements and the dependency graph over it, with a journal of what was done.

Dependencies are added by key.  An end that is not known is registered as a placeholder; an end that
is known as something other than a type is refused.  The ends are resolved one after the other, the
source first.
-/

namespace CodeMetrics

/-- Why the model refuses a dependency. -/
inductive GraphError where
  | notAType (key : String) (kind : Kind)
  | index (error : IndexError)
deriving DecidableEq

/-- The wording of a graph error. -/
def GraphError.message : GraphError → String
  | .notAType key kind => s!"{key} is a {kind.name}, not a type"
  | .index error => error.message

/-- An index and a dependency graph over it. -/
structure Model where
  index : Index := {}
  graph : Graph := {}
  journal : Journal := #[]

namespace Model

/-- Adds messages to the journal. -/
def note (m : Model) (notes : List Note) : Model :=
  { m with journal := m.journal ++ notes.toArray }

/-- Registers an element. -/
def register (m : Model) (key : String) (kind : Kind) (parent : Option String) :
    Except IndexError Handle × Model :=
  match m.index.register key kind parent with
  | .ok (h, index) =>
    (.ok h, { m with index := index }.note (m.index.registrationNotes key parent))
  | .error e => (.error e, m)

/-- Registers a placeholder, unless the key is known. -/
def registerExternal (m : Model) (key : String) : Handle × Model :=
  let (h, index) := m.index.registerExternal key
  (h, { m with index := index }.note (m.index.externalNotes key))

/-- Attaches a measure to the element of a key. -/
def attach (m : Model) (key name : String) (value : Measure) : Except IndexError Unit × Model :=
  match m.index.attach key name value with
  | .ok index => (.ok (), { m with index := index })
  | .error e => (.error e, m)

/-- Attaches a measure to the element of a handle. -/
def attachTo (m : Model) (h : Handle) (name : String) (value : Measure) :
    Except IndexError Unit × Model :=
  match m.index.attachTo h name value with
  | .ok index => (.ok (), { m with index := index })
  | .error e => (.error e, m)

/-- Adds a vertex to the graph. -/
def addVertex (m : Model) (h : Handle) : Nat × Model :=
  let (node, graph) := m.graph.addVertex h
  (node, { m with graph := graph })

/-- Adds a vertex for every type and every placeholder. -/
def addTypes (m : Model) : Model :=
  { m with graph := m.graph.addTypes m.index }

/-- Makes the element of a key a vertex, registering a placeholder for an unknown key. -/
def resolve (m : Model) (key : String) : Except GraphError Handle × Model :=
  match m.index.find? key with
  | some e =>
    if e.kind.isTypeLevel then (.ok e.handle, (m.addVertex e.handle).2)
    else (.error (.notAType key e.kind), m)
  | none =>
    let (h, m) := m.registerExternal key
    (.ok h, (m.addVertex h).2)

/-- Counts a dependency between two keys and gives the number of its edge.  A type's dependency on
itself is not stored. -/
def addEdge (m : Model) (source target : String) (kind : EdgeKind) :
    Except GraphError (Option Nat) × Model :=
  if source = target then (.ok none, m)
  else match m.resolve source with
    | (.error e, m) => (.error e, m)
    | (.ok s, m) =>
      match m.resolve target with
      | (.error e, m) => (.error e, m)
      | (.ok t, m) =>
        let (n, graph) := m.graph.connect s t kind
        (.ok n, { m with graph := graph })

/-! ## Changes as data -/

/-- A change of the model. -/
inductive Change where
  | register (key : String) (kind : Kind) (parent : Option String)
  | registerExternal (key : String)
  | attach (key name : String) (value : Measure)
  | attachTo (handle : Handle) (name : String) (value : Measure)
  | addEdge (source target : String) (kind : EdgeKind)
  | addVertex (handle : Handle)
  | addTypes
  /-- Forgets all elements; the graph stays. -/
  | clearIndex

/-- The answer to a change. -/
inductive Outcome where
  | done
  | registered (handle : Handle)
  | attached
  /-- The number of the edge; there is none for a dependency of a type on itself. -/
  | edge (number : Option Nat)
  | vertex (node : Nat)
  | refused (error : GraphError)
deriving DecidableEq

namespace Outcome

/-- The answer to a registration. -/
def ofRegistration : Except IndexError Handle → Outcome
  | .ok h => .registered h
  | .error e => .refused (.index e)

/-- The answer to an attachment. -/
def ofAttachment : Except IndexError Unit → Outcome
  | .ok () => .attached
  | .error e => .refused (.index e)

/-- The answer to a new dependency. -/
def ofEdge : Except GraphError (Option Nat) → Outcome
  | .ok n => .edge n
  | .error e => .refused e

end Outcome

/-- Carries out a change.  A refused change may still have left its mark on the model. -/
def apply (m : Model) : Change → Outcome × Model
  | .register key kind parent =>
    let (r, m) := m.register key kind parent
    (.ofRegistration r, m)
  | .registerExternal key =>
    let (h, m) := m.registerExternal key
    (.registered h, m)
  | .attach key name value =>
    let (r, m) := m.attach key name value
    (.ofAttachment r, m)
  | .attachTo handle name value =>
    let (r, m) := m.attachTo handle name value
    (.ofAttachment r, m)
  | .addEdge source target kind =>
    let (r, m) := m.addEdge source target kind
    (.ofEdge r, m)
  | .addVertex handle =>
    let (node, m) := m.addVertex handle
    (.vertex node, m)
  | .addTypes => (.done, m.addTypes)
  | .clearIndex => (.done, { m with index := {} })

end Model

end CodeMetrics
