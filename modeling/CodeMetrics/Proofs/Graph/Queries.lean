import CodeMetrics.Proofs.Graph.History

/-!
# The queries of a graph

A graph answers its queries from different places: from what is noted at a vertex, from the table of
links, or from the list of all edges.  After any history the answers agree with the list of all
edges, for vertices and for handles that are not vertices: each answer is the part of the list that
was asked for, in the order of the list.

The list itself is in the order of insertion, because a change adds at its end at most and leaves
the links before it where they are (`Graph.Grown`).  No history is ruled out here: the vertices may
be any handles, and the index may be thrown away under the graph.
-/

namespace CodeMetrics

namespace Graph

variable {g g' g'' : Graph}

/-! ## Queries of a sound graph -/

/-- The edges that touch some handles are those with one of their ends among them. -/
theorem touching_eq (g : Graph) (handles : List Handle) :
    g.touching handles =
      g.edges.toList.filter fun e => e.source ∈ handles ∨ e.target ∈ handles := by
  refine List.filter_congr fun e _ => ?_
  rw [Bool.eq_iff_iff, List.any_eq_true, decide_eq_true_iff]
  constructor
  · rintro ⟨h, listed, touches⟩
    rcases Bool.or_eq_true_iff.mp touches with source | target
    · exact .inl (beq_iff_eq.mp source ▸ listed)
    · exact .inr (beq_iff_eq.mp target ▸ listed)
  · rintro (listed | listed)
    · exact ⟨e.source, listed, by simp [Edge.touches]⟩
    · exact ⟨e.target, listed, by simp [Edge.touches]⟩

/-- The search for an edge and the list of the edges between two handles agree. -/
theorem Sound.hasEdge_iff (sound : g.Sound) (a b : Handle) :
    g.hasEdge a b = true ↔ g.between a b ≠ [] := by
  rw [sound.hasEdge_iff_exists, sound.between_eq, ne_eq, List.filter_eq_nil_iff]
  push Not
  simp only [Bool.and_eq_true, beq_iff_eq]

/-- The table of links leads to the edge of a link, if there is one. -/
theorem Sound.edge?_eq_some_iff (sound : g.Sound) {a b : Handle} {kind : EdgeKind} {e : Edge} :
    g.edge? a b kind = some e ↔ e ∈ g.edges.toList ∧ e.link = (a, b, kind) := by
  unfold edge? edgeNumber?
  simp only [Option.bind_eq_some_iff, sound.numbers_iff, ← Array.getElem?_toList]
  constructor
  · rintro ⟨n, linked, found⟩
    rw [found, Option.map_some, Option.some.injEq] at linked
    exact ⟨List.mem_of_getElem? found, linked⟩
  · rintro ⟨listed, linked⟩
    obtain ⟨n, found⟩ := List.mem_iff_getElem?.mp listed
    exact ⟨n, by rw [found, Option.map_some, linked], found⟩

theorem Sound.nodup_edges (sound : g.Sound) : g.edges.toList.Nodup :=
  sound.nodup_links.of_map

/-- Of all edges between two handles, the table of links has the one of each kind.  There cannot be
two, since the links of a sound graph are distinct. -/
theorem Sound.filter_kind_between (sound : g.Sound) (a b : Handle) (kind : EdgeKind) :
    (g.between a b).filter (·.kind == kind) = (g.edge? a b kind).toList := by
  have single : (g.edge? a b kind).toList.Nodup := by
    cases g.edge? a b kind <;> simp
  have same : ((g.between a b).filter (·.kind == kind)).Perm (g.edge? a b kind).toList := by
    rw [sound.between_eq, List.filter_filter,
      List.perm_ext_iff_of_nodup (sound.nodup_edges.filter _) single]
    intro e
    rw [List.mem_filter, Option.mem_toList, sound.edge?_eq_some_iff, Edge.link]
    simp only [Bool.and_eq_true, beq_iff_eq, Prod.mk.injEq]
    tauto
  cases found : g.edge? a b kind with
  | none =>
      rw [found] at same
      exact same.eq_nil
  | some e =>
      rw [found] at same
      exact List.perm_singleton.mp same

/-! ## The edges at a vertex in another order -/

/-- The same graph, except that the edges at each node are kept in another order. -/
structure Reordered (g g' : Graph) : Prop where
  vertices : g'.vertices = g.vertices
  edges : g'.edges = g.edges
  arcs : g'.arcs = g.arcs
  nodes : g'.nodes = g.nodes
  numbers : g'.numbers = g.numbers
  size : g'.incidence.size = g.incidence.size
  leaving : ∀ node,
    (g'.incident Incidence.leaving node).Perm (g.incident Incidence.leaving node)
  entering : ∀ node,
    (g'.incident Incidence.entering node).Perm (g.incident Incidence.entering node)

/-- What is asked of a sound graph does not depend on the order in which its nodes list their edges:
all conditions on these lists hold up to rearrangement. -/
theorem Reordered.sound (reordered : g.Reordered g') (sound : g.Sound) : g'.Sound where
  node?_iff := by
    simp only [node?, reordered.nodes, reordered.vertices]
    exact sound.node?_iff
  size_incidence := by
    rw [reordered.size, reordered.vertices]
    exact sound.size_incidence
  size_arcs := by
    rw [reordered.arcs, reordered.edges]
    exact sound.size_arcs
  joins := by
    simp only [node?, reordered.nodes, reordered.edges, reordered.arcs]
    exact sound.joins
  leaving_perm node := by
    rw [reordered.arcs]
    exact (reordered.leaving node).trans (sound.leaving_perm node)
  entering_perm node := by
    rw [reordered.arcs]
    exact (reordered.entering node).trans (sound.entering_perm node)
  nodup_links := by
    rw [reordered.edges]
    exact sound.nodup_links
  numbers_iff := by
    rw [reordered.numbers, reordered.edges]
    exact sound.numbers_iff

/-- A graph that lists the oldest edge at a vertex first. -/
def oldestFirst (g : Graph) : Graph :=
  { g with incidence := g.incidence.map fun place =>
      ⟨place.leaving.reverse, place.entering.reverse⟩ }

/-- Listing the oldest edge first is one of the orders in which a node may keep its edges. -/
theorem reordered_oldestFirst (g : Graph) : g.Reordered g.oldestFirst := by
  refine ⟨rfl, rfl, rfl, rfl, rfl, Array.size_map, fun node => ?_, fun node => ?_⟩
  · unfold StoredGraph.incident oldestFirst
    rw [Array.getElem?_map]
    cases g.incidence[node]? with
    | none => exact .refl _
    | some place => exact List.reverse_perm place.leaving
  · unfold StoredGraph.incident oldestFirst
    rw [Array.getElem?_map]
    cases g.incidence[node]? with
    | none => exact .refl _
    | some place => exact List.reverse_perm place.entering

/-! ## Graphs that grow -/

/-- From `g` to `g'` the graph is sound again, and what is new stands behind what is old. -/
structure Grown (g g' : Graph) : Prop where
  sound : g'.Sound
  vertices : g.vertices.toList <+: g'.vertices.toList
  links : g.edges.toList.map Edge.link <+: g'.edges.toList.map Edge.link

namespace Grown

theorem refl (sound : g.Sound) : g.Grown g := ⟨sound, List.prefix_rfl, List.prefix_rfl⟩

theorem trans (first : g.Grown g') (second : g'.Grown g'') : g.Grown g'' :=
  ⟨second.sound, first.vertices.trans second.vertices, first.links.trans second.links⟩

/-- A vertex stays one. -/
theorem contains (grown : g.Grown g') (sound : g.Sound) {h : Handle}
    (vertex : g.contains h = true) : g'.contains h = true :=
  grown.sound.mem_vertices.mp (grown.vertices.subset (sound.mem_vertices.mpr vertex))

theorem addVertex (sound : g.Sound) (h : Handle) : g.Grown (g.addVertex h).2 where
  sound := sound.addVertex h
  vertices := by
    rw [vertices_addVertex]
    split
    · exact List.prefix_rfl
    · exact List.prefix_append _ _
  links := by rw [edges_addVertex]

theorem addTypes (sound : g.Sound) (ix : Index) : g.Grown (g.addTypes ix) := by
  unfold Graph.addTypes
  induction ix.typeLevel generalizing g with
  | nil => exact .refl sound
  | cons e rest ih => exact (addVertex sound e.handle).trans (ih (sound.addVertex e.handle))

/-- A dependency raises a usage where its link is known, and is a new link at the end otherwise. -/
theorem connect (sound : g.Sound) {s t : Handle} (apart : s ≠ t) (source : g.contains s = true)
    (target : g.contains t = true) (kind : EdgeKind) : g.Grown (g.connect s t kind).2 where
  sound := sound.connect s t kind
  vertices := by rw [vertices_connect s t kind source target]
  links := by
    rw [edges_connect s t kind sound apart]
    split
    · rw [List.map_map]
      simp [Function.comp_def]
    · rw [List.map_append]
      exact List.prefix_append _ _

end Grown

end Graph

namespace Model

open CodeMetrics.Graph

variable {m : Model}

theorem Resolved.grown {m' : Model} {key : String} {h : Handle} (resolved : m.Resolved key h m')
    (sound : m.graph.Sound) : m.graph.Grown m'.graph := by
  rw [resolved.graph]
  exact .addVertex sound h

/-- A dependency only lets the graph grow, whether it is counted or refused. -/
theorem grown_addEdge (index : m.index.Sound) (sound : m.graph.Sound) (source target : String)
    (kind : EdgeKind) : m.graph.Grown (m.addEdge source target kind).2.graph := by
  have links := addEdge_links index source target kind
  generalize m.addEdge source target kind = result at links ⊢
  cases links with
  | self _ => exact .refl sound
  | sourceRefused _ _ => exact .refl sound
  | targetRefused _ first _ => exact first.grown sound
  | @counted s t m₁ m₂ _ apart first second _ =>
      have ends : m.graph.Grown m₂.graph :=
        (first.grown sound).trans (second.grown (first.grown sound).sound)
      obtain ⟨vertex, vertex'⟩ := first.ends_vertices second
      exact ends.trans (.connect ends.sound (first.ends_apart apart second) vertex vertex' kind)

/-- Three changes concern the graph; the others leave it as it is. -/
theorem grown_apply (index : m.index.Sound) (sound : m.graph.Sound) (change : Change) :
    m.graph.Grown (m.apply change).2.graph := by
  cases change with
  | addEdge source target kind => exact grown_addEdge index sound source target kind
  | addVertex h => exact .addVertex sound h
  | addTypes => exact .addTypes sound m.index
  | _ =>
      rw [m.graph_apply rfl]
      exact .refl sound

theorem grown_applyAll (index : m.index.Sound) (sound : m.graph.Sound) (changes : List Change) :
    m.graph.Grown (m.applyAll changes).graph := by
  induction changes generalizing m with
  | nil => exact .refl sound
  | cons change rest ih =>
      have first := grown_apply index sound change
      exact first.trans (ih (m.apply_sound index change) first.sound)

theorem Evolves.grown {m' : Model} (evolves : m.Evolves m') (sound : m.Sound) :
    m.graph.Grown m'.graph := by
  obtain ⟨changes, -, alike⟩ := evolves
  rw [← alike.graph]
  exact grown_applyAll sound.index sound.graph changes

/-- **All queries of a graph agree with its edge list**, after any changes, for any handles, and in
whatever order the edges at a vertex are kept.  The edges that leave a vertex, enter it, lead from
one to another or touch one of several are the part of the list with these ends, in the order of the
list.  The search for an edge from one vertex to another finds one exactly if there are edges between
them, and the edge of one kind is the only one of that kind among these.  The list has no edge twice,
and it is in the order of insertion: later changes leave the links where they are and add new ones at
the end. -/
theorem queries_match_edges (changes : List Change) {g : Graph}
    (reordered : (({} : Model).applyAll changes).graph.Reordered g) (a b : Handle)
    (kind : EdgeKind) (handles : List Handle) :
    let edges := g.edges.toList
    edges = (({} : Model).applyAll changes).graph.edges.toList ∧
      g.outgoing a = edges.filter (·.source = a) ∧
      g.incoming a = edges.filter (·.target = a) ∧
      g.between a b = edges.filter (fun e => e.source = a ∧ e.target = b) ∧
      g.touching handles = edges.filter (fun e => e.source ∈ handles ∨ e.target ∈ handles) ∧
      (g.hasEdge a b = true ↔ g.between a b ≠ []) ∧
      (g.edge? a b kind).toList = (g.between a b).filter (·.kind = kind) ∧
      edges.Nodup ∧
      ∀ more, edges.map Edge.link <+:
        (({} : Model).applyAll (changes ++ more)).graph.edges.toList.map Edge.link := by
  intro edges
  have index := ({} : Model).applyAll_sound .empty changes
  have before : (({} : Model).applyAll changes).graph.Sound :=
    (grown_applyAll .empty .empty changes).sound
  have sound : g.Sound := reordered.sound before
  refine ⟨congrArg Array.toList reordered.edges, sound.outgoing_eq a, sound.incoming_eq a, ?_,
    g.touching_eq handles, sound.hasEdge_iff a b, ?_, sound.nodup_edges, fun more => ?_⟩
  · rw [sound.between_eq]
    exact List.filter_congr fun e _ => (Bool.decide_and _ _).symm
  · exact (sound.filter_kind_between a b kind).symm
  · rw [applyAll_append, show edges = _ from congrArg Array.toList reordered.edges]
    exact (grown_applyAll index before more).links

/-- Two dependencies of different kinds between the same types, one of them found twice, and one on a
third type in between. -/
def parallelCalls : List Change :=
  [.addEdge "A" "B" .call, .addEdge "A" "C" .extension, .addEdge "A" "B" .fieldUse,
    .addEdge "A" "B" .call]

theorem queries_match_edges_parallelCalls :
    let g := (({} : Model).applyAll parallelCalls).graph.oldestFirst
    g.outgoing ⟨0⟩ =
        [⟨⟨0⟩, ⟨1⟩, .call, 2⟩, ⟨⟨0⟩, ⟨2⟩, .extension, 1⟩, ⟨⟨0⟩, ⟨1⟩, .fieldUse, 1⟩] ∧
      g.between ⟨0⟩ ⟨1⟩ = [⟨⟨0⟩, ⟨1⟩, .call, 2⟩, ⟨⟨0⟩, ⟨1⟩, .fieldUse, 1⟩] ∧
      g.hasEdge ⟨0⟩ ⟨1⟩ = true ∧ g.hasEdge ⟨1⟩ ⟨0⟩ = false ∧ g.incoming ⟨7⟩ = [] := by
  intro g
  have reordered := reordered_oldestFirst (({} : Model).applyAll parallelCalls).graph
  obtain ⟨same, leaving, -, there, -, found, -⟩ :=
    queries_match_edges parallelCalls reordered ⟨0⟩ ⟨1⟩ .call []
  obtain ⟨-, -, -, back, -, lost, -⟩ := queries_match_edges parallelCalls reordered ⟨1⟩ ⟨0⟩ .call []
  obtain ⟨-, -, entering, -⟩ := queries_match_edges parallelCalls reordered ⟨7⟩ ⟨0⟩ .call []
  rw [same] at leaving there back entering
  have between : g.between ⟨0⟩ ⟨1⟩ = [⟨⟨0⟩, ⟨1⟩, .call, 2⟩, ⟨⟨0⟩, ⟨1⟩, .fieldUse, 1⟩] :=
    there.trans (by decide +kernel)
  have none : g.between ⟨1⟩ ⟨0⟩ = [] := back.trans (by decide +kernel)
  refine ⟨leaving.trans (by decide +kernel), between, found.mpr ?_, ?_,
    entering.trans (by decide +kernel)⟩
  · rw [between]
    exact List.cons_ne_nil _ _
  · rw [Bool.eq_false_iff]
    exact fun linked => lost.mp linked none

end Model

end CodeMetrics
