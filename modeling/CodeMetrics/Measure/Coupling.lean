import CodeMetrics.Findings

/-!
# Coupling

The afferent coupling of a type is the number of types that depend on it, the efferent coupling the
number of types that it depends on.  Each neighbour counts once, whatever the edges between them.
-/

namespace CodeMetrics

/-- The number of vertices with an edge to `h`. -/
def Graph.afferent (g : Graph) (h : Handle) : Nat :=
  ((g.incoming h).map Edge.source).eraseDups.length

/-- The number of vertices with an edge from `h`. -/
def Graph.efferent (g : Graph) (h : Handle) : Nat :=
  ((g.outgoing h).map Edge.target).eraseDups.length

namespace Findings

/-- Attaches both couplings to one vertex. -/
def attachCoupling (f : Findings) (h : Handle) : Except IndexError Findings := do
  let f ← f.attachMetric h .ca (.ofCount (f.graph.afferent h))
  f.attachMetric h .ce (.ofCount (f.graph.efferent h))

/-- Attaches both couplings to every vertex. -/
def attachCouplings (f : Findings) : Except IndexError Findings :=
  f.graph.vertices.toList.foldlM attachCoupling f

end Findings

end CodeMetrics
