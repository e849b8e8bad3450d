/-!
# Stored directed graphs

Nodes and edges with what they carry.  Both are known by their numbers, which are given in the order
of insertion, and neither is ever removed.  For each node the store keeps the numbers of the edges
that leave it and of those that enter it.

The store promises nothing about the order in which it lists the edges at a node.  As it is, the
newest edge comes first.
-/

namespace CodeMetrics

/-- The nodes that a stored edge leads from and to. -/
structure Arc where
  source : Nat
  target : Nat
deriving DecidableEq

/-- The numbers of the edges at a node. -/
structure Incidence where
  leaving : List Nat := []
  entering : List Nat := []
deriving DecidableEq

/-- A directed graph whose nodes carry an `α` and whose edges carry a `β`. -/
structure StoredGraph (α β : Type) where
  /-- What each node carries. -/
  vertices : Array α := #[]
  /-- What each edge carries. -/
  edges : Array β := #[]
  /-- Where each edge leads. -/
  arcs : Array Arc := #[]
  /-- The edges at each node. -/
  incidence : Array Incidence := #[]

namespace StoredGraph

variable {α β : Type}

/-- The numbers of the edges on one side of a node, in no particular order. -/
def incident (g : StoredGraph α β) (side : Incidence → List Nat) (node : Nat) : List Nat :=
  (g.incidence[node]?.map side).getD []

/-- Whether an edge enters a node. -/
def enters (g : StoredGraph α β) (node n : Nat) : Bool := g.arcs[n]?.any (·.target == node)

/-- The numbers of the edges from one node to another, in no particular order. -/
def connecting (g : StoredGraph α β) (a b : Nat) : List Nat :=
  (g.incident Incidence.leaving a).filter (g.enters b)

/-- The number of some edge from one node to another. -/
def findEdge? (g : StoredGraph α β) (a b : Nat) : Option Nat :=
  (g.incident Incidence.leaving a).find? (g.enters b)

/-- Adds a node and gives its number. -/
def addNode (g : StoredGraph α β) (carried : α) : Nat × StoredGraph α β :=
  (g.vertices.size,
    { g with vertices := g.vertices.push carried, incidence := g.incidence.push {} })

/-- Adds an edge between two nodes and gives its number. -/
def addEdge (g : StoredGraph α β) (a b : Nat) (carried : β) : Nat × StoredGraph α β :=
  let n := g.edges.size
  let left := g.incidence.modify a fun place => { place with leaving := n :: place.leaving }
  let entered := left.modify b fun place => { place with entering := n :: place.entering }
  (n, { g with
    edges := g.edges.push carried
    arcs := g.arcs.push ⟨a, b⟩
    incidence := entered })

end StoredGraph

end CodeMetrics
