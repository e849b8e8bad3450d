import CodeMetrics.Reaction

/-!
# Cohesion of a class

The members of a class are the nodes of an undirected graph.  A method is linked to every field of
its own class that it uses and to every method of its own class that it calls.  The lack of cohesion
is the number of connected components: one for a cohesive class, none for a class without members.

Fields that the configuration excludes take no part.  A call is linked when the class is left, once
all its methods are known; a call to a method that is not a node is inherited and has no link.
-/

namespace CodeMetrics

/-- An undirected graph over keys. -/
structure CohesionGraph where
  /-- The nodes, each once. -/
  nodes : List String := []
  links : List (String × String) := []
deriving DecidableEq

namespace CohesionGraph

/-- Adds a node. -/
def addNode (g : CohesionGraph) (key : String) : CohesionGraph :=
  { g with nodes := g.nodes.insert key }

/-- Whether there is a link between two nodes, in either direction. -/
def linked (g : CohesionGraph) (a b : String) : Bool :=
  g.links.contains (a, b) || g.links.contains (b, a)

/-- Links two different nodes, unless they are linked already.  They are added where they are
missing. -/
def link (g : CohesionGraph) (a b : String) : CohesionGraph :=
  let g := (g.addNode a).addNode b
  if a == b || g.linked a b then g else { g with links := (a, b) :: g.links }

/-- Joins the blocks of a partition that hold one of two nodes. -/
def join (blocks : List (List String)) (link : String × String) : List (List String) :=
  let touches (block : List String) : Bool := block.contains link.1 || block.contains link.2
  match blocks.filter touches with
  | [] => blocks
  | touched => touched.flatten :: blocks.filter (!touches ·)

/-- The connected components, as blocks of nodes. -/
def components (g : CohesionGraph) : List (List String) :=
  g.links.foldl join (g.nodes.map ([·]))

end CohesionGraph

/-- The cohesion graph of the class that is being scanned. -/
structure OpenCohesion where
  type : Handle
  key : String
  graph : CohesionGraph := {}
  /-- The calls to methods of the class itself: caller and callee. -/
  calls : List (String × String) := []
deriving DecidableEq

namespace OpenCohesion

/-- Links a call, if its callee is a node. -/
def linkCall (g : CohesionGraph) (call : String × String) : CohesionGraph :=
  if g.nodes.contains call.2 then g.link call.1 call.2 else g

/-- The graph with all its calls. -/
def complete (c : OpenCohesion) : CohesionGraph :=
  c.calls.foldl linkCall c.graph

/-- Takes account of a reference from a method of the class to one of its own members. -/
def refer (c : OpenCohesion) (excluded : String → Bool) (methodKey : String) :
    Reference → OpenCohesion
  | .access a =>
    if excluded a.name then c
    else { c with graph := c.graph.link methodKey (Reference.access a).target }
  | .call call => { c with calls := c.calls ++ [(methodKey, (Reference.call call).target)] }

end OpenCohesion

/-- Computes the cohesion of each class. -/
structure CohesionVisitor where
  /-- The names of fields that take no part. -/
  excluded : Std.ExtTreeSet String := ∅
  /-- The cohesion graph under way. -/
  current : Option OpenCohesion := none
deriving DecidableEq

namespace CohesionVisitor

/-- Whether a field takes no part. -/
def excludes (v : CohesionVisitor) (name : String) : Bool := v.excluded.contains name

/-- The graph of a class when it is entered: one node for each field that takes part. -/
def enter (v : CohesionVisitor) (visit : TypeVisit) : OpenCohesion :=
  let fields := visit.fields.filter fun field => !v.excludes field.name
  { type := visit.element
    key := visit.key
    graph := fields.foldl (fun g field => g.addNode (Key.member visit.key field.name)) {} }

/-- The message about the cohesion of a class. -/
def note (key : String) (count : Nat) : Effect :=
  .say .debug s!"LCOM4 {key} = {count}"

/-- The answer to an event. -/
def react (v : CohesionVisitor) (f : Findings) : Event → CohesionVisitor × Reaction
  | .type visit =>
    if visit.phase = .bytecode then ({ v with current := some (v.enter visit) }, .none)
    else (v, .none)
  | .method visit =>
    let add (c : OpenCohesion) : OpenCohesion :=
      if visit.phase = .bytecode ∧ visit.owner = some c.type then
        { c with graph := c.graph.addNode visit.key }
      else c
    ({ v with current := v.current.map add }, .none)
  | .reference visit =>
    let add (c : OpenCohesion) : OpenCohesion :=
      if visit.element = c.type ∧ visit.reference.owner = c.key then
        c.refer v.excludes visit.methodKey visit.reference
      else c
    ({ v with current := v.current.map add }, .none)
  | .leaveType visit =>
    match v.current with
    | none => (v, .none)
    | some c =>
      let left := { v with current := none }
      if c.type = visit.element then
        let count := c.complete.components.length
        let attached := Reaction.attachMetric f visit.element .lcom4 (.ofCount count)
        (left, { attached with effects := note visit.key count :: attached.effects })
      else (left, .none)
  | .endScan _ => (v, .none)

end CohesionVisitor

end CodeMetrics
