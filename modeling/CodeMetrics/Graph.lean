import CodeMetrics.StoredGraph
import CodeMetrics.Edge
import CodeMetrics.Index

/-!
# The dependency graph

A directed graph over the handles of elements.  There is at most one edge of each kind between two
vertices; finding it again raises its usage.  Vertices and edges are never removed, so each is known
by its number, and every listing is in the order of insertion.

The vertices and edges are nodes and edges of a stored graph.  Two tables lead into the store: one
from a handle to its node, one from a link to the number of its edge, so that a dependency is counted
without a search.  The store lists the edges at a node in no particular order; the queries about a
vertex sort them by number.
-/

namespace CodeMetrics

/-- A counted dependency graph. -/
structure Graph extends StoredGraph Handle Edge where
  /-- The node of each vertex. -/
  nodes : Std.ExtTreeMap Handle Nat := ∅
  /-- The number of the edge with these ends and this kind. -/
  numbers : Std.ExtTreeMap Link Nat := ∅

namespace Graph

/-! ## Queries -/

/-- Whether a handle is a vertex. -/
def contains (g : Graph) (h : Handle) : Bool := g.nodes.contains h

/-- The node of a vertex. -/
def node? (g : Graph) (h : Handle) : Option Nat := g.nodes[h]?

/-- The edges of some numbers, sorted by number. -/
def inOrder (g : Graph) (numbers : List Nat) : List Edge :=
  let numbered := numbers.filterMap fun n => g.edges[n]?.map fun e => (n, e)
  (numbered.mergeSort fun a b => a.1 ≤ b.1).map Prod.snd

/-- The edges on one side of a vertex. -/
def directed (g : Graph) (side : Incidence → List Nat) (h : Handle) : List Edge :=
  match g.node? h with
  | none => []
  | some node => g.inOrder (g.incident side node)

/-- The edges that leave a vertex. -/
def outgoing (g : Graph) (h : Handle) : List Edge := g.directed Incidence.leaving h

/-- The edges that enter a vertex. -/
def incoming (g : Graph) (h : Handle) : List Edge := g.directed Incidence.entering h

/-- The edges from one vertex to another. -/
def between (g : Graph) (source target : Handle) : List Edge :=
  match g.node? source, g.node? target with
  | some a, some b => g.inOrder (g.connecting a b)
  | _, _ => []

/-- Whether any edge leads from one vertex to another. -/
def hasEdge (g : Graph) (source target : Handle) : Bool :=
  match g.node? source, g.node? target with
  | some a, some b => (g.findEdge? a b).isSome
  | _, _ => false

/-- The number of the edge of one kind from one vertex to another. -/
def edgeNumber? (g : Graph) (source target : Handle) (kind : EdgeKind) : Option Nat :=
  g.numbers[(source, target, kind)]?

/-- The edge of one kind from one vertex to another. -/
def edge? (g : Graph) (source target : Handle) (kind : EdgeKind) : Option Edge :=
  (g.edgeNumber? source target kind).bind (g.edges[·]?)

/-- The edges that touch one of the given vertices, each once. -/
def touching (g : Graph) (vertices : List Handle) : List Edge :=
  g.edges.toList.filter fun e => vertices.any e.touches

/-- The edges with the keys of their ends.  An edge whose end is not in the index is left out. -/
def keyedEdges (g : Graph) (ix : Index) : List KeyedEdge :=
  g.edges.toList.filterMap fun e => do
    let source ← ix.key? e.source
    let target ← ix.key? e.target
    return ⟨source, target, e.kind, e.usage⟩

/-! ## Changes -/

/-- Adds a vertex, unless it is one already, and gives its node. -/
def addVertex (g : Graph) (h : Handle) : Nat × Graph :=
  match g.node? h with
  | some node => (node, g)
  | none =>
    let (node, store) := g.addNode h
    (node, { g with toStoredGraph := store, nodes := g.nodes.insert h node })

/-- Adds every element of the index that may have dependencies. -/
def addTypes (g : Graph) (ix : Index) : Graph :=
  ix.typeLevel.foldl (fun g e => (g.addVertex e.handle).2) g

/-- Counts one more use of an edge. -/
def countUse (g : Graph) (n : Nat) : Graph :=
  { g with edges := g.edges.modify n fun e => { e with usage := e.usage + 1 } }

/-- Adds the first edge of a link, whose ends become vertices, and gives its number. -/
def addLink (g : Graph) (source target : Handle) (kind : EdgeKind) : Nat × Graph :=
  let (a, g) := g.addVertex source
  let (b, g) := g.addVertex target
  let (n, store) := g.addEdge a b { source, target, kind }
  (n, { g with toStoredGraph := store, numbers := g.numbers.insert (source, target, kind) n })

/-- Counts a dependency between two handles and gives the number of its edge.  There is none from a
handle to itself. -/
def connect (g : Graph) (source target : Handle) (kind : EdgeKind) : Option Nat × Graph :=
  if source = target then (none, g)
  else match g.edgeNumber? source target kind with
    | some n => (some n, g.countUse n)
    | none =>
      let (n, g) := g.addLink source target kind
      (some n, g)

end Graph

end CodeMetrics
