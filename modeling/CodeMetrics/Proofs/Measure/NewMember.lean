import CodeMetrics.Proofs.Measure.Components

/-!
# A member more

What becomes of the components of a graph if there is one more node, which is joined to some of the
others.  The new node and the components that it joins become one component, and every other
component stays (`CohesionGraph.length_components_of_more`).

The order of nodes and links does not matter for the number of components, so the new node and its
links may be taken as the last ones.  The links between the other nodes do not see the new node, and
its own links only join blocks to the one block that has it.
-/

namespace CodeMetrics

namespace CohesionGraph

variable {g g' : CohesionGraph} {key : String} {neighbours : List String}
  {blocks : List (List String)} {link : String × String} {pairs : String × String → Prop}

/-- The nodes are distinct, and links are between nodes. -/
structure Drawn (g : CohesionGraph) : Prop where
  nodup : g.nodes.Nodup
  ends : ∀ link ∈ g.links, link.1 ∈ g.nodes ∧ link.2 ∈ g.nodes

/-- The undirected graph of the nodes and links. -/
def drawing (g : CohesionGraph) : SimpleGraph g.nodes.toFinset :=
  SimpleGraph.fromRel fun x y => (x.1, y.1) ∈ g.links

theorem Drawn.draws (drawn : g.Drawn) : g.Draws g.drawing where
  nodup := drawn.nodup
  mem_iff _ := List.mem_toFinset
  ends link listed := by
    obtain ⟨first, second⟩ := drawn.ends link listed
    exact ⟨List.mem_toFinset.mpr first, List.mem_toFinset.mpr second⟩
  adj_iff _ _ := SimpleGraph.fromRel_adj ..

/-- Graphs of the same nodes and pairs have the same number of components, however their links are
listed. -/
theorem length_components_of_same (drawn : g.Drawn) (drawn' : g'.Drawn) (spans : g.Spans pairs)
    (spans' : g'.Spans pairs) (nodes : ∀ key, key ∈ g'.nodes ↔ key ∈ g.nodes) :
    g'.components.length = g.components.length := by
  have draws := drawn.draws
  have draws' : g'.Draws g.drawing := by
    refine ⟨drawn'.nodup, fun key => ?_, fun link listed => ?_, fun x y => ?_⟩
    · rw [draws.mem_iff, nodes]
    · rw [draws.mem_iff, draws.mem_iff, ← nodes, ← nodes]
      exact drawn'.ends link listed
    · rw [draws.adj_iff]
      refine and_congr_right fun other => ?_
      have apart : x.1 ≠ y.1 := fun same => other (Subtype.ext same)
      rw [spans.linked_iff apart, spans'.linked_iff apart]
  exact draws'.card_connectedComponent.symm.trans draws.card_connectedComponent

theorem nodup_link (nodup : g.nodes.Nodup) (a b : String) : (g.link a b).nodes.Nodup :=
  nodes_link g a b ▸ nodup.insert.insert

/-- The guard of a link makes no difference: the same components are counted where a node is linked
to itself, and where two nodes are linked again. -/
theorem length_components_link (drawn : g.Drawn) (a b : String) :
    (g.link a b).components.length =
      (CohesionGraph.mk (g.link a b).nodes ((a, b) :: g.links)).components.length := by
  have own : g.Spans (· ∈ g.links) :=
    ⟨fun _ => id, fun _ listed => .inr (linked_iff.mpr (.inl listed))⟩
  have spans := own.add a b
  have inside : ∀ link, link ∈ g.links ∨ link = (a, b) →
      link.1 ∈ (g.link a b).nodes ∧ link.2 ∈ (g.link a b).nodes := by
    rw [nodes_link]
    rintro link (listed | rfl)
    · obtain ⟨first, second⟩ := drawn.ends link listed
      exact ⟨List.mem_insert_of_mem (List.mem_insert_of_mem first),
        List.mem_insert_of_mem (List.mem_insert_of_mem second)⟩
    · exact ⟨List.mem_insert_of_mem List.mem_insert_self, List.mem_insert_self⟩
  have mem_free {link : String × String} :
      link ∈ (a, b) :: g.links ↔ link ∈ g.links ∨ link = (a, b) := by
    rw [List.mem_cons, or_comm]
  have free : (CohesionGraph.mk (g.link a b).nodes ((a, b) :: g.links)).Spans
      fun link => link ∈ g.links ∨ link = (a, b) :=
    ⟨fun _ => mem_free.mp, fun _ pair => .inr (linked_iff.mpr (.inl (mem_free.mpr pair)))⟩
  refine length_components_of_same ?_ ?_ free spans fun _ => Iff.rfl
  · exact ⟨nodup_link drawn.nodup a b, fun link listed => inside link (mem_free.mp listed)⟩
  · exact ⟨nodup_link drawn.nodup a b, fun link listed => inside link (spans.among link listed)⟩

/-- The components are made of the nodes. -/
theorem Drawn.mem_of_component (drawn : g.Drawn) {block : List String}
    (listed : block ∈ g.components) {x : String} (inside : x ∈ block) : x ∈ g.nodes := by
  have start : Partitions g.drawing [] (g.nodes.map ([·])) :=
    .singletons drawn.nodup drawn.draws.mem_iff
  have partitions := start.foldl fun link listed => drawn.draws.reaches listed
  exact List.mem_toFinset.mp ((partitions.mem_iff x).mpr ⟨block, listed, inside⟩)

/-! ## The links of the new node -/

/-- A link of other nodes leaves the new node alone. -/
theorem join_concat (first : link.1 ≠ key) (second : link.2 ≠ key) :
    join (blocks ++ [[key]]) link = join blocks link ++ [[key]] := by
  have apart : ([key].contains link.1 || [key].contains link.2) = false := by simp [first, second]
  simp only [join, List.filter_append, List.filter_singleton, apart, cond_false, List.append_nil,
    Bool.not_false, cond_true]
  split
  · rfl
  · rfl

theorem foldl_join_concat {links : List (String × String)}
    (apart : ∀ link ∈ links, link.1 ≠ key ∧ link.2 ≠ key) :
    links.foldl join (blocks ++ [[key]]) = links.foldl join blocks ++ [[key]] := by
  induction links generalizing blocks with
  | nil => rfl
  | cons link rest ih =>
      obtain ⟨⟨first, second⟩, apart⟩ := List.forall_mem_cons.mp apart
      rw [List.foldl_cons, join_concat first second, ih apart]
      rfl

/-- A link of the new node keeps one block with the node.  Of the other blocks those stay that the
link does not touch. -/
theorem filter_join_star (one : (blocks.filter (key ∈ ·)).length = 1) (x : String) :
    ((join blocks (x, key)).filter (key ∈ ·)).length = 1 ∧
      (join blocks (x, key)).filter (key ∉ ·) =
        blocks.filter fun block => key ∉ block ∧ x ∉ block := by
  obtain ⟨block, only⟩ := List.length_eq_one_iff.mp one
  obtain ⟨listed, inside⟩ := List.mem_filter.mp (only ▸ List.mem_singleton_self block)
  have inside : key ∈ block := of_decide_eq_true inside
  rw [join_eq ⟨block, listed, .inr inside⟩]
  have joined : key ∈ (blocks.filter fun block => Touches (x, key) block).flatten :=
    List.mem_flatten.mpr ⟨block, List.mem_filter.mpr ⟨listed, decide_eq_true (.inr inside)⟩, inside⟩
  generalize (blocks.filter fun block => Touches (x, key) block).flatten = merged at joined ⊢
  constructor
  · have none : (blocks.filter fun block => ¬ Touches (x, key) block).filter (key ∈ ·) = [] := by
      rw [List.filter_filter, List.filter_eq_nil_iff]
      intro block _ both
      obtain ⟨inside, apart⟩ := Bool.and_eq_true_iff.mp both
      exact of_decide_eq_true apart (.inr (of_decide_eq_true inside))
    simp only [List.filter_cons, joined, decide_true, if_true, none, List.length_singleton]
  · simp only [List.filter_cons, joined, not_true, decide_false, Bool.false_eq_true, if_false,
      List.filter_filter]
    refine List.filter_congr fun block _ => ?_
    simp only [Touches, not_or, ← Bool.decide_and, decide_eq_decide]
    tauto

/-- After all links of the new node there is one block with it.  Of the other blocks those stay that
have no neighbour of the node. -/
theorem length_foldl_join_star (one : (blocks.filter (key ∈ ·)).length = 1)
    (neighbours : List String) :
    ((neighbours.map (·, key)).foldl join blocks).length =
      1 + (blocks.filter fun block => key ∉ block ∧ ∀ x ∈ neighbours, x ∉ block).length := by
  induction neighbours generalizing blocks with
  | nil =>
      have split := List.length_eq_length_filter_add (l := blocks) (key ∈ ·)
      simpa [one] using split
  | cons x rest ih =>
      obtain ⟨one', others⟩ := filter_join_star one x
      have parted (blocks : List (List String)) :
          (blocks.filter fun block => key ∉ block ∧ ∀ y ∈ rest, y ∉ block) =
            (blocks.filter (key ∉ ·)).filter fun block => ∀ y ∈ rest, y ∉ block := by
        simp only [List.filter_filter, Bool.decide_and, Bool.and_comm]
      rw [List.map_cons, List.foldl_cons, ih one', parted, others, List.filter_filter]
      congr 2
      refine List.filter_congr fun block _ => ?_
      simp only [List.forall_mem_cons, ← Bool.decide_and, decide_eq_decide]
      tauto

/-! ## The new node -/

/-- The components of a graph that a new node with these neighbours joins. -/
def met (g : CohesionGraph) (neighbours : List String) : List (List String) :=
  g.components.filter fun block => ∃ x ∈ neighbours, x ∈ block

/-- One node more that is joined to some of the others: it is a component with all those that it
joins.  So the number of components goes up by one for the new node, and down by one for each
component that has a neighbour of it. -/
theorem length_components_of_more (drawn : g.Drawn) (drawn' : g'.Drawn) (new : key ∉ g.nodes)
    (nodes : ∀ x, x ∈ g'.nodes ↔ x ∈ g.nodes ∨ x = key) (members : ∀ x ∈ neighbours, x ∈ g.nodes)
    (spans : g.Spans pairs)
    (spans' : g'.Spans fun link => pairs link ∨ link.1 ∈ neighbours ∧ link.2 = key) :
    g'.components.length + (g.met neighbours).length = g.components.length + 1 := by
  have apart : ∀ link ∈ g.links, link.1 ≠ key ∧ link.2 ≠ key := by
    intro link listed
    obtain ⟨first, second⟩ := drawn.ends link listed
    exact ⟨fun same => new (same ▸ first), fun same => new (same ▸ second)⟩
  -- the new node and its links come last
  let late : CohesionGraph := ⟨g.nodes ++ [key], g.links ++ neighbours.map (·, key)⟩
  have nodes_late : ∀ x, x ∈ late.nodes ↔ x ∈ g'.nodes := by
    intro x
    rw [nodes]
    simp [late]
  have mem_links {link} : link ∈ late.links ↔
      link ∈ g.links ∨ link.1 ∈ neighbours ∧ link.2 = key := by
    have star : link ∈ neighbours.map (·, key) ↔ link.1 ∈ neighbours ∧ link.2 = key := by
      rw [List.mem_map]
      constructor
      · rintro ⟨x, listed, rfl⟩
        exact ⟨listed, rfl⟩
      · rintro ⟨listed, same⟩
        exact ⟨link.1, listed, Prod.ext rfl same.symm⟩
    rw [← star]
    exact List.mem_append
  have spans_late : late.Spans fun link => pairs link ∨ link.1 ∈ neighbours ∧ link.2 = key := by
    refine ⟨fun link listed => (mem_links.mp listed).imp_left (spans.among link), ?_⟩
    rintro link (pair | star)
    · refine (spans.linked link pair).imp_right fun linked => ?_
      rw [linked_iff] at linked ⊢
      exact linked.imp (List.mem_append_left _) (List.mem_append_left _)
    · exact .inr (linked_iff.mpr (.inl (mem_links.mpr (.inr star))))
  have drawn_late : late.Drawn := by
    refine ⟨?_, fun link listed => ?_⟩
    · exact List.nodup_append'.mpr ⟨drawn.nodup, List.nodup_singleton key, by simpa using new⟩
    · rw [nodes_late, nodes_late, nodes, nodes]
      rcases mem_links.mp listed with old | ⟨neighbour, same⟩
      · exact (drawn.ends link old).imp .inl .inl
      · exact ⟨.inl (members _ neighbour), .inr same⟩
  rw [← length_components_of_same drawn' drawn_late spans' spans_late nodes_late]
  have blocks : late.components =
      (neighbours.map (·, key)).foldl join (g.components ++ [[key]]) := by
    have beside : g.links.foldl join ((g.nodes ++ [key]).map ([·])) = g.components ++ [[key]] := by
      rw [List.map_append]
      exact foldl_join_concat apart
    rw [← beside]
    exact List.foldl_append
  have outside : ∀ block ∈ g.components, key ∉ block :=
    fun block listed inside => new (drawn.mem_of_component listed inside)
  have one : ((g.components ++ [[key]]).filter (key ∈ ·)).length = 1 := by
    have none : g.components.filter (key ∈ ·) = [] :=
      List.filter_eq_nil_iff.mpr fun block listed => by simpa using outside block listed
    simp [List.filter_append, none]
  have others : ((g.components ++ [[key]]).filter fun block =>
      key ∉ block ∧ ∀ x ∈ neighbours, x ∉ block) =
      g.components.filter fun block => ¬ ∃ x ∈ neighbours, x ∈ block := by
    rw [List.filter_append, List.filter_singleton]
    simp only [List.mem_singleton, not_true, false_and, decide_false, cond_false, List.append_nil]
    refine List.filter_congr fun block listed => ?_
    simp [outside block listed]
  rw [blocks, length_foldl_join_star one, others]
  have split := List.length_eq_length_filter_add (l := g.components)
    fun block => ∃ x ∈ neighbours, x ∈ block
  simp only [met, decide_not] at split ⊢
  omega

end CohesionGraph

end CodeMetrics
