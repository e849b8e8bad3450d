import CodeMetrics.Proofs.Graph.Queries
import CodeMetrics.Proofs.Graph.Tally
import CodeMetrics.Proofs.Scan.Lineage
import Mathlib.Algebra.BigOperators.Group.Finset.Piecewise
import Mathlib.Algebra.BigOperators.Group.Finset.Sigma

/-!
# Couplings

The afferent coupling of a vertex counts the vertices with an edge to it, the efferent coupling
those with an edge from it.  Both count neighbours, not edges: however many edges of however many
kinds join two vertices, and however often each is used, they add one at either end.  So over all
vertices the couplings of either direction sum up to the same number, that of the ordered pairs of
vertices with an edge between them.

The couplings are attached at the end of a run, after the last visitor was called.  What visitors
attach or do to the model before does not matter.
-/

namespace CodeMetrics

/-! ## Neighbours -/

namespace Graph

variable {g : Graph}

/-- The vertices, as a set. -/
def vertexSet (g : Graph) : Finset Handle := g.vertices.toList.toFinset

/-- The vertices with an edge to `v`. -/
def dependents (g : Graph) (v : Handle) : Finset Handle :=
  g.vertexSet.filter fun u => g.hasEdge u v

/-- The vertices with an edge from `v`. -/
def suppliers (g : Graph) (v : Handle) : Finset Handle :=
  g.vertexSet.filter fun u => g.hasEdge v u

/-- The ordered pairs of vertices with an edge from the first to the second. -/
def joined (g : Graph) : Finset (Handle × Handle) :=
  (g.vertexSet ×ˢ g.vertexSet).filter fun p => g.hasEdge p.1 p.2

/-- Whatever has an edge to `v` is a vertex. -/
theorem Sound.mem_dependents (sound : g.Sound) {u v : Handle} :
    u ∈ g.dependents v ↔ g.hasEdge u v = true := by
  rw [dependents, Finset.mem_filter, and_iff_right_iff_imp, sound.hasEdge_iff_exists]
  rintro ⟨e, listed, rfl, -⟩
  exact List.mem_toFinset.mpr (sound.mem_vertices.mpr (sound.ends_known listed).1)

/-- Whatever has an edge from `v` is a vertex. -/
theorem Sound.mem_suppliers (sound : g.Sound) {u v : Handle} :
    u ∈ g.suppliers v ↔ g.hasEdge v u = true := by
  rw [suppliers, Finset.mem_filter, and_iff_right_iff_imp, sound.hasEdge_iff_exists]
  rintro ⟨e, listed, -, rfl⟩
  exact List.mem_toFinset.mpr (sound.mem_vertices.mpr (sound.ends_known listed).2)

/-- The different members of a list, counted. -/
theorem length_eraseDups_eq_card {l : List Handle} {s : Finset Handle}
    (same : ∀ h, h ∈ l ↔ h ∈ s) : l.eraseDups.length = s.card := by
  rw [← List.toFinset_card_of_nodup (nodup_eraseDups l)]
  refine congrArg Finset.card (Finset.ext fun h => ?_)
  rw [List.mem_toFinset, List.mem_eraseDups, same]

/-- The afferent coupling of a vertex is the number of its dependents.  The metric erases duplicates
among the sources of its edges, so several edges of one source count once. -/
theorem Sound.afferent_eq_card (sound : g.Sound) (v : Handle) :
    g.afferent v = (g.dependents v).card := by
  refine length_eraseDups_eq_card fun u => ?_
  rw [sound.mem_dependents, sound.hasEdge_iff_exists, sound.incoming_eq]
  simp [and_assoc, and_comm]

/-- The efferent coupling of a vertex is the number of its suppliers, each counted once. -/
theorem Sound.efferent_eq_card (sound : g.Sound) (v : Handle) :
    g.efferent v = (g.suppliers v).card := by
  refine length_eraseDups_eq_card fun u => ?_
  rw [sound.mem_suppliers, sound.hasEdge_iff_exists, sound.outgoing_eq]
  simp [and_assoc]

/-! ## Counting pairs from either end -/

/-- Summed over all vertices, the suppliers are the joined pairs: each pair is counted at its
source. -/
theorem sum_card_suppliers (g : Graph) :
    ∑ v ∈ g.vertexSet, (g.suppliers v).card = g.joined.card := by
  simp only [joined, suppliers, Finset.card_filter, Finset.sum_product]

/-- Summed over all vertices, the dependents are the joined pairs again, this time counted at their
targets.  This is why both couplings have the same total. -/
theorem sum_card_dependents (g : Graph) :
    ∑ v ∈ g.vertexSet, (g.dependents v).card = g.joined.card := by
  simp only [joined, dependents, Finset.card_filter, Finset.sum_product_right]

end Graph

/-! ## Whole runs -/

namespace Analysis

variable {σ : Type} {config : Config} {visitors : List (External σ × Subscription)}
  {sources : List SourceFile} {artifacts : List Artifact} {a : Analysis}

/-- Both couplings are among the measures that are attached at the end.  They are attached last,
under different names, so neither replaces the other. -/
theorem couplings_closingMeasures (i : Inheritance) (g : Graph) (h : Handle)
    (m : Std.ExtTreeMap String Measure) :
    (closingMeasures i g h m)[Metric.ca.name]? = some (.ofCount (g.afferent h)) ∧
      (closingMeasures i g h m)[Metric.ce.name]? = some (.ofCount (g.efferent h)) := by
  have apart : compare Metric.ce.name Metric.ca.name ≠ .eq := by decide
  rw [closingMeasures, Findings.couple]
  constructor
  · rw [Std.ExtTreeMap.getElem?_insert, if_neg apart, Std.ExtTreeMap.getElem?_insert_self]
  · rw [Std.ExtTreeMap.getElem?_insert_self]

/-- **Couplings count neighbours and balance**, whoever listens.  Every vertex is an element of the
index, with both couplings among its measures. -/
theorem coupling_counts_neighbours (ran : run config visitors sources artifacts = .ok a) :
    (∀ v ∈ a.graph.vertexSet, ∃ e, a.index.get? v = some e ∧
        e.metric? .ca = some (.ofCount (a.graph.dependents v).card) ∧
        e.metric? .ce = some (.ofCount (a.graph.suppliers v).card)) ∧
      ∑ v ∈ a.graph.vertexSet, (a.graph.dependents v).card = a.graph.joined.card ∧
      ∑ v ∈ a.graph.vertexSet, (a.graph.suppliers v).card = a.graph.joined.card := by
  have sound := sound_of_run ran
  have graph : a.graph.Sound := sound.graph
  refine ⟨fun v vertex => ?_, a.graph.sum_card_dependents, a.graph.sum_card_suppliers⟩
  have contained := graph.mem_vertices.mp (List.mem_toFinset.mp vertex)
  obtain ⟨e, found⟩ : ∃ e, a.index.get? v = some e :=
    Index.knows_iff_get?.mp (sound.founded.knows contained)
  obtain ⟨m, measures⟩ := measures_of_run ran (sound.founded v contained)
  obtain ⟨afferent, efferent⟩ := couplings_closingMeasures a.findings.inheritance a.graph v m
  rw [← measures, Index.measuresOf_of_get? found] at afferent efferent
  rw [graph.afferent_eq_card] at afferent
  rw [graph.efferent_eq_card] at efferent
  exact ⟨e, found, afferent, efferent⟩

section Tangled

/-- Two classes that use each other in several ways, and a third class that only one of them uses,
again and again. -/
def tangled : List Artifact :=
  let uses (site : UInt32) (owner : String) : List Reference :=
    [.call ⟨site, owner, "f()V"⟩, .call ⟨site + 1, owner, "f()V"⟩, .access ⟨site + 2, owner, "x"⟩]
  [{ path := "all.jar",
     classes := [
      { key := "A", superclass := some "B", interfaces := ["B"], fields := [],
        methods := [⟨"m()V", uses 0 "B" ++ uses 3 "C"⟩] },
      { key := "B", superclass := none, interfaces := [], fields := [],
        methods := [⟨"n()V", uses 0 "A" ++ uses 3 "B"⟩] }],
     error := none }]

theorem coupling_counts_neighbours_tangled :
    ∃ a, run {} ([] : List (External Unit × Subscription)) [] tangled = .ok a ∧
      a.graph.edges.size = 8 ∧ a.graph.joined.card = 3 ∧
      ∑ v ∈ a.graph.vertexSet, (a.graph.dependents v).card = 3 ∧
      ∃ v e, a.index.handle? "A" = some v ∧ a.index.get? v = some e ∧
        e.metric? .ca = some (.ofCount 1) ∧ e.metric? .ce = some (.ofCount 2) := by
  have evaluated : ((run {} ([] : List (External Unit × Subscription)) [] tangled).toOption.map
      fun a => (a.graph.edges.size, a.graph.joined.card, (a.index.handle? "A").map fun v =>
        (decide (v ∈ a.graph.vertexSet), (a.graph.dependents v).card,
          (a.graph.suppliers v).card))) = some (8, 3, some (true, 1, 2)) := by
    decide +kernel
  cases ran : run {} ([] : List (External Unit × Subscription)) [] tangled with
  | error e =>
      rw [ran] at evaluated
      cases evaluated
  | ok a =>
      rw [ran] at evaluated
      simp only [Except.toOption, Option.map_some, Option.some.injEq, Prod.mk.injEq,
        Option.map_eq_some_iff, decide_eq_true_eq] at evaluated
      obtain ⟨edges, pairs, v, handle, vertex, dependents, suppliers⟩ := evaluated
      obtain ⟨measured, balance, -⟩ := coupling_counts_neighbours ran
      obtain ⟨e, found, afferent, efferent⟩ := measured v vertex
      rw [dependents] at afferent
      rw [suppliers] at efferent
      exact ⟨a, rfl, edges, pairs, balance.trans pairs, v, e, handle, found, afferent, efferent⟩

end Tangled

end Analysis

end CodeMetrics
