import CodeMetrics.Graph
import Mathlib.Data.List.Induction
import Mathlib.Data.List.Nodup

/-!
# The graph and its edge list

A graph lists its edges in the order of insertion and keeps, for each vertex, the numbers of the
edges that leave and enter it.  `Graph.Sound` says that these numbers are the positions of the edges
with that source or that target, in whatever order they are kept, and that no two edges have the same
ends and the same kind.  The table of vertices has the position of each vertex, and the table of links
the position of the one edge of each link.

A query about a vertex sorts what is kept there.  The sorted numbers are the positions in their order
(`Graph.inOrder_eq`), so that every such query is a filter of the edge list.
-/

namespace CodeMetrics

/-- What an edge stands for, without its usage: the ends and the kind. -/
def Edge.link (e : Edge) : Handle × Handle × EdgeKind := (e.source, e.target, e.kind)

/-- Counts one more use, if the edge has this link. -/
def Edge.bump (link : Handle × Handle × EdgeKind) (e : Edge) : Edge :=
  if e.link = link then { e with usage := e.usage + 1 } else e

namespace Edge

variable (link : Handle × Handle × EdgeKind) (e : Edge)

@[simp] theorem source_bump : (e.bump link).source = e.source := by
  unfold bump
  split <;> rfl

@[simp] theorem target_bump : (e.bump link).target = e.target := by
  unfold bump
  split <;> rfl

/-- A use that is counted changes neither end of an edge nor its kind. -/
@[simp] theorem link_bump : (e.bump link).link = e.link := by
  unfold bump
  split <;> rfl

end Edge

/-! ## Positions in a list -/

section Positions

variable {α β : Type}

/-- The positions of the entries that pass a test, in order. -/
def positions (l : List α) (test : α → Bool) : List Nat :=
  (List.range l.length).filter fun n => l[n]?.any test

/-- A position is listed exactly if there is something at it that passes the test. -/
theorem mem_positions_iff {l : List α} {test : α → Bool} {n : Nat} :
    n ∈ positions l test ↔ ∃ a, l[n]? = some a ∧ test a = true := by
  rw [positions, List.mem_filter, List.mem_range, Option.any_eq_true]
  refine and_iff_right_of_imp ?_
  rintro ⟨a, found, -⟩
  exact (List.getElem?_eq_some_iff.mp found).1

/-- Listed positions are in range. -/
theorem lt_of_mem_positions {l : List α} {test : α → Bool} {n : Nat}
    (listed : n ∈ positions l test) : n < l.length :=
  List.mem_range.mp (List.mem_filter.mp listed).1

/-- Positions are listed in their order, each once. -/
theorem pairwise_positions (l : List α) (test : α → Bool) : (positions l test).Pairwise (· < ·) :=
  List.pairwise_lt_range.filter _

/-- A new last entry adds its own position at most, and that one comes last. -/
theorem positions_concat (l : List α) (a : α) (test : α → Bool) :
    positions (l ++ [a]) test = positions l test ++ if test a then [l.length] else [] := by
  have old : (List.range l.length).filter (fun n => (l ++ [a])[n]?.any test) =
      positions l test := by
    refine List.filter_congr fun n inside => ?_
    rw [List.getElem?_append_left (List.mem_range.mp inside)]
  rw [positions, List.length_append, List.length_singleton, List.range_succ, List.filter_append,
    old]
  cases passes : test a <;> simp [passes]

/-- The entries at the positions of a test are the entries that pass it, in their order. -/
theorem filterMap_positions (l : List α) (test : α → Bool) :
    (positions l test).filterMap (l[·]?) = l.filter test := by
  induction l using List.reverseRecOn with
  | nil => rfl
  | append_singleton l a ih =>
      have old : (positions l test).filterMap ((l ++ [a])[·]?) = l.filter test := by
        rw [← ih]
        refine List.filterMap_congr fun n listed => ?_
        obtain ⟨b, found, -⟩ := mem_positions_iff.mp listed
        exact List.getElem?_append_left (List.getElem?_eq_some_iff.mp found).1
      rw [positions_concat, List.filterMap_append, old, List.filter_append]
      cases passes : test a <;> simp [passes]

/-- Of two lists whose entries pass their tests place by place, the positions are the same. -/
theorem positions_congr {l : List α} {l' : List β} {test : α → Bool} {test' : β → Bool}
    (length : l.length = l'.length)
    (same : ∀ (n : Nat) a b, l[n]? = some a → l'[n]? = some b → test a = test' b) :
    positions l test = positions l' test' := by
  unfold positions
  rw [length]
  refine List.filter_congr fun n inside => ?_
  have inside' : n < l'.length := List.mem_range.mp inside
  rw [List.getElem?_eq_getElem inside', List.getElem?_eq_getElem (length ▸ inside'), Option.any_some,
    Option.any_some]
  exact same n _ _ (List.getElem?_eq_getElem _) (List.getElem?_eq_getElem _)

/-- To pass two tests is to pass one and then the other. -/
theorem filter_positions (l : List α) (test test' : α → Bool) :
    (positions l test).filter (fun n => l[n]?.any test') =
      positions l fun a => test a && test' a := by
  unfold positions
  rw [List.filter_filter]
  refine List.filter_congr fun n _ => ?_
  cases l[n]? with
  | none => rfl
  | some a => exact Bool.and_comm _ _

end Positions

/-! ## Edges and their links -/

/-- Where links are distinct, counting a use at the position of a link counts it for the link.  So
usages can be spoken about without positions. -/
theorem modify_eq_map_bump {edges : List Edge} (distinct : (edges.map Edge.link).Nodup) {n : Nat}
    {e : Edge} (found : edges[n]? = some e) :
    (edges.modify n fun e => { e with usage := e.usage + 1 }) = edges.map (Edge.bump e.link) := by
  refine List.ext_getElem? fun i => ?_
  rw [List.getElem?_modify, List.getElem?_map]
  by_cases same : n = i
  · subst same
    simp [found, Edge.bump]
  · cases other : edges[i]? with
    | none => simp
    | some e' =>
        have differs : e'.link ≠ e.link := by
          intro equal
          have inside : n < (edges.map Edge.link).length := by
            rw [List.length_map]
            exact (List.getElem?_eq_some_iff.mp found).1
          refine same ((List.getElem?_inj inside distinct).mp ?_)
          rw [List.getElem?_map, List.getElem?_map, found, other, Option.map_some, Option.map_some,
            equal]
        simp [same, Edge.bump, differs]

/-- A new edge takes the next position, and all others keep theirs. -/
theorem link_concat (edges : List Edge) (e : Edge) (n : Nat) :
    ((edges ++ [e])[n]?).map Edge.link =
      if n = edges.length then some e.link else (edges[n]?).map Edge.link := by
  rw [List.getElem?_append]
  split
  · next inside => rw [if_neg (Nat.ne_of_lt inside)]
  · next outside =>
      rw [List.getElem?_eq_none (Nat.le_of_not_lt outside)]
      rcases Nat.eq_or_lt_of_le (Nat.le_of_not_lt outside) with rfl | beyond
      · simp
      · rw [if_neg (Nat.ne_of_gt beyond), List.getElem?_eq_none]
        rw [List.length_singleton]
        omega

namespace Graph

/-! ## Sorted numbers -/

/-- The edges of some numbers, with their numbers. -/
def numbered (g : Graph) (numbers : List Nat) : List (Nat × Edge) :=
  numbers.filterMap fun n => g.edges[n]?.map fun e => (n, e)

/-- Each listed number comes with the edge that has this number. -/
theorem mem_numbered {g : Graph} {numbers : List Nat} {entry : Nat × Edge}
    (listed : entry ∈ g.numbered numbers) : g.edges[entry.1]? = some entry.2 := by
  obtain ⟨n, -, paired⟩ := List.mem_filterMap.mp listed
  obtain ⟨e, found, rfl⟩ := Option.map_eq_some_iff.mp paired
  exact found

/-- Sorting puts positions back into their order, however they are listed.  This is why the answers
to queries do not depend on the order in which a node keeps its incident edges. -/
theorem inOrder_eq (g : Graph) {numbers : List Nat} {test : Edge → Bool}
    (perm : numbers.Perm (positions g.edges.toList test)) :
    g.inOrder numbers = g.edges.toList.filter test := by
  have sorted : (g.numbered (positions g.edges.toList test)).Pairwise fun a b => a.1 ≤ b.1 := by
    refine (pairwise_positions g.edges.toList test).filterMap _ ?_
    intro n m before a first b second
    obtain ⟨e, -, rfl⟩ := Option.map_eq_some_iff.mp first
    obtain ⟨e', -, rfl⟩ := Option.map_eq_some_iff.mp second
    exact Nat.le_of_lt before
  have resorted : (g.numbered numbers).mergeSort (fun a b => a.1 ≤ b.1) =
      g.numbered (positions g.edges.toList test) := by
    -- both lists are sorted and have the same entries; entries of one number are the same edge
    refine List.Perm.eq_of_pairwise ?_ ?_ sorted
      ((List.mergeSort_perm _ _).trans (perm.filterMap _))
    · intro a b first second before after
      have found := mem_numbered (List.mem_mergeSort.mp first)
      rw [Nat.le_antisymm before after, mem_numbered second, Option.some.injEq] at found
      exact Prod.ext (Nat.le_antisymm before after) found.symm
    · have trans : ∀ a b c : Nat × Edge, decide (a.1 ≤ b.1) = true → decide (b.1 ≤ c.1) = true →
          decide (a.1 ≤ c.1) = true := by
        simpa using fun a _ b _ c _ => Nat.le_trans
      have total : ∀ a b : Nat × Edge, (decide (a.1 ≤ b.1) || decide (b.1 ≤ a.1)) = true := by
        simpa using fun a _ b _ => Nat.le_total a b
      simpa using List.pairwise_mergeSort trans total (g.numbered numbers)
  show ((g.numbered numbers).mergeSort fun a b => a.1 ≤ b.1).map Prod.snd = _
  rw [resorted, numbered, List.map_filterMap, ← filterMap_positions]
  refine List.filterMap_congr fun n _ => ?_
  rw [Option.map_map, Array.getElem?_toList]
  exact Option.map_id'

/-! ## Sound graphs -/

/-- Vertices, edges, the edges at each node and the two tables agree, and no link has two edges.
Nothing is said about the order of the edges at a node. -/
structure Sound (g : Graph) : Prop where
  node?_iff : ∀ {h : Handle} {node : Nat}, g.node? h = some node ↔ g.vertices[node]? = some h
  size_incidence : g.incidence.size = g.vertices.size
  size_arcs : g.arcs.size = g.edges.size
  joins : ∀ {n : Nat} {e : Edge} {arc : Arc}, g.edges[n]? = some e → g.arcs[n]? = some arc →
    g.node? e.source = some arc.source ∧ g.node? e.target = some arc.target
  leaving_perm : ∀ node,
    (g.incident Incidence.leaving node).Perm (positions g.arcs.toList (·.source == node))
  entering_perm : ∀ node,
    (g.incident Incidence.entering node).Perm (positions g.arcs.toList (·.target == node))
  nodup_links : (g.edges.toList.map Edge.link).Nodup
  numbers_iff : ∀ {link : Link} {n : Nat},
    g.numbers[link]? = some n ↔ (g.edges.toList[n]?).map Edge.link = some link

/-- A handle is a vertex exactly if it has a node. -/
theorem contains_iff_node? {g : Graph} {h : Handle} :
    g.contains h = true ↔ ∃ node, g.node? h = some node := by
  rw [contains, node?, Std.ExtTreeMap.contains_eq_isSome_getElem?, Option.isSome_iff_exists]

namespace Sound

variable {g : Graph}

/-- A graph without nodes is sound. -/
theorem empty : Sound {} where
  node?_iff := by simp [node?]
  size_incidence := rfl
  size_arcs := rfl
  joins found := by simp at found
  leaving_perm node := by simp [StoredGraph.incident, positions]
  entering_perm node := by simp [StoredGraph.incident, positions]
  nodup_links := by simp
  numbers_iff := by simp

/-! ## Vertices and the ends of edges -/

/-- The list of vertices and the table of nodes have the same handles. -/
theorem mem_vertices (sound : g.Sound) {h : Handle} :
    h ∈ g.vertices.toList ↔ g.contains h = true := by
  rw [contains_iff_node?, List.mem_iff_getElem?]
  simp only [sound.node?_iff, Array.getElem?_toList]

/-- No vertex is listed twice, since each has one node only. -/
theorem nodup_vertices (sound : g.Sound) : g.vertices.toList.Nodup := by
  rw [List.nodup_iff_getElem?_ne_getElem?]
  intro i j before inside same
  rw [List.getElem?_eq_getElem inside] at same
  have first := sound.node?_iff.mpr ((Array.getElem?_toList).symm.trans same)
  have second := sound.node?_iff.mpr
    ((Array.getElem?_toList).symm.trans (List.getElem?_eq_getElem inside))
  rw [first, Option.some.injEq] at second
  exact Nat.ne_of_lt before second

/-- Every edge is stored between two nodes. -/
theorem exists_arc (sound : g.Sound) {n : Nat} {e : Edge} (found : g.edges[n]? = some e) :
    ∃ arc, g.arcs[n]? = some arc := by
  have inside : n < g.arcs.size := sound.size_arcs ▸ (Array.getElem?_eq_some_iff.mp found).1
  exact ⟨_, Array.getElem?_eq_getElem inside⟩

/-- The ends of edges are vertices. -/
theorem ends_known (sound : g.Sound) {e : Edge} (listed : e ∈ g.edges.toList) :
    g.contains e.source = true ∧ g.contains e.target = true := by
  obtain ⟨n, found⟩ := List.mem_iff_getElem?.mp listed
  rw [Array.getElem?_toList] at found
  obtain ⟨arc, stored⟩ := sound.exists_arc found
  obtain ⟨source, target⟩ := sound.joins found stored
  exact ⟨contains_iff_node?.mpr ⟨_, source⟩, contains_iff_node?.mpr ⟨_, target⟩⟩

/-- Different vertices have different nodes. -/
theorem node_eq_iff (sound : g.Sound) {h x : Handle} {a b : Nat} (first : g.node? h = some a)
    (second : g.node? x = some b) : a = b ↔ h = x := by
  constructor
  · rintro rfl
    have same := sound.node?_iff.mp first
    rw [sound.node?_iff.mp second, Option.some.injEq] at same
    exact same.symm
  · rintro rfl
    rw [first, Option.some.injEq] at second
    exact second

/-- An edge is stored with the nodes of its ends, so a test of the nodes is a test of the ends. -/
theorem positions_arcs (sound : g.Sound) {test : Arc → Bool} {test' : Edge → Bool}
    (same : ∀ e arc, g.node? e.source = some arc.source → g.node? e.target = some arc.target →
      test arc = test' e) :
    positions g.arcs.toList test = positions g.edges.toList test' := by
  refine positions_congr sound.size_arcs fun n arc e stored found => ?_
  rw [Array.getElem?_toList] at stored found
  obtain ⟨source, target⟩ := sound.joins found stored
  exact same e arc source target

/-- Comparing the node that an arc leaves is comparing the vertex that its edge leaves. -/
theorem source_eq (sound : g.Sound) {h : Handle} {a : Nat} (node : g.node? h = some a) {e : Edge}
    {arc : Arc} (source : g.node? e.source = some arc.source) :
    (arc.source == a) = (e.source == h) := by
  rw [Bool.eq_iff_iff, beq_iff_eq, beq_iff_eq]
  exact sound.node_eq_iff source node

/-- Comparing the node that an arc enters is comparing the vertex that its edge enters. -/
theorem target_eq (sound : g.Sound) {h : Handle} {a : Nat} (node : g.node? h = some a) {e : Edge}
    {arc : Arc} (target : g.node? e.target = some arc.target) :
    (arc.target == a) = (e.target == h) := by
  rw [Bool.eq_iff_iff, beq_iff_eq, beq_iff_eq]
  exact sound.node_eq_iff target node

/-! ## Queries -/

/-- The edges on one side of a vertex, if the numbers that are kept there are those of the edges with
this end. -/
theorem directed_eq (h : Handle) {side : Incidence → List Nat}
    {endOf : Edge → Handle} (known : ∀ e ∈ g.edges.toList, g.contains (endOf e) = true)
    (perm : ∀ a, g.node? h = some a →
      (g.incident side a).Perm (positions g.edges.toList fun e => endOf e == h)) :
    g.directed side h = g.edges.toList.filter fun e => endOf e == h := by
  unfold directed
  split
  · next unknown =>
      rw [eq_comm, List.filter_eq_nil_iff]
      intro e listed same
      have vertex := known e listed
      rw [beq_iff_eq.mp same, contains_iff_node?, unknown] at vertex
      obtain ⟨node, found⟩ := vertex
      cases found
  · next a node => exact g.inOrder_eq (perm a node)

/-- The edges that leave a vertex are those with that source. -/
theorem outgoing_eq (sound : g.Sound) (h : Handle) :
    g.outgoing h = g.edges.toList.filter (·.source == h) := by
  refine directed_eq h (fun e listed => (sound.ends_known listed).1) fun a node => ?_
  rw [← sound.positions_arcs fun e arc source _ => sound.source_eq node source]
  exact sound.leaving_perm a

/-- The edges that enter a vertex are those with that target. -/
theorem incoming_eq (sound : g.Sound) (h : Handle) :
    g.incoming h = g.edges.toList.filter (·.target == h) := by
  refine directed_eq h (fun e listed => (sound.ends_known listed).2) fun a node => ?_
  rw [← sound.positions_arcs fun e arc _ target => sound.target_eq node target]
  exact sound.entering_perm a

/-- The stored edges from one node to another are those with the two ends, in some order.  Nodes and
handles belong to each other one to one, so the ends can be compared as either. -/
theorem connecting_perm (sound : g.Sound) {s t : Handle} {a b : Nat} (source : g.node? s = some a)
    (target : g.node? t = some b) :
    (g.connecting a b).Perm
      (positions g.edges.toList fun e => e.source == s && e.target == t) := by
  have enters : (g.enters b) = fun n => g.arcs.toList[n]?.any (·.target == b) := by
    funext n
    rw [Array.getElem?_toList]
    rfl
  have ends : positions g.arcs.toList (fun arc => arc.source == a && arc.target == b) =
      positions g.edges.toList fun e => e.source == s && e.target == t := by
    refine sound.positions_arcs fun e arc first second => ?_
    rw [sound.source_eq source first, sound.target_eq target second]
  have perm := (sound.leaving_perm a).filter (g.enters b)
  rwa [enters, filter_positions, ends, ← enters] at perm

/-- The edges between two handles are those with this source and this target, in the order of
insertion, also if one of the handles is no vertex: then there are none. -/
theorem between_eq (sound : g.Sound) (s t : Handle) :
    g.between s t = g.edges.toList.filter fun e => e.source == s && e.target == t := by
  unfold between
  split
  · next a b source target => exact g.inOrder_eq (sound.connecting_perm source target)
  · next unknown =>
      rw [eq_comm, List.filter_eq_nil_iff]
      intro e listed both
      obtain ⟨source, target⟩ := Bool.and_eq_true_iff.mp both
      obtain ⟨known, known'⟩ := sound.ends_known listed
      rw [beq_iff_eq.mp source, contains_iff_node?] at known
      rw [beq_iff_eq.mp target, contains_iff_node?] at known'
      obtain ⟨a, first⟩ := known
      obtain ⟨b, second⟩ := known'
      exact unknown a b first second

/-- The search for an edge finds one exactly if there is one.  It looks through the edges that are
noted where they leave, and an edge is noted at the node of its source. -/
theorem hasEdge_iff_exists (sound : g.Sound) {s t : Handle} :
    g.hasEdge s t = true ↔ ∃ e ∈ g.edges.toList, e.source = s ∧ e.target = t := by
  unfold hasEdge
  split
  · next a b source target =>
      have found : (g.findEdge? a b).isSome = true ↔ ∃ n, n ∈ g.connecting a b := by
        rw [StoredGraph.findEdge?, List.find?_isSome]
        simp only [StoredGraph.connecting, List.mem_filter]
      rw [found]
      simp only [(sound.connecting_perm source target).mem_iff, mem_positions_iff,
        Bool.and_eq_true, beq_iff_eq]
      constructor
      · rintro ⟨n, e, found, ends⟩
        exact ⟨e, List.mem_of_getElem? found, ends⟩
      · rintro ⟨e, listed, ends⟩
        obtain ⟨n, found⟩ := List.mem_iff_getElem?.mp listed
        exact ⟨n, e, found, ends⟩
  · next unknown =>
      refine iff_of_false Bool.false_ne_true ?_
      rintro ⟨e, listed, rfl, rfl⟩
      obtain ⟨known, known'⟩ := sound.ends_known listed
      obtain ⟨a, first⟩ := contains_iff_node?.mp known
      obtain ⟨b, second⟩ := contains_iff_node?.mp known'
      exact unknown a b first second

/-- The number that is noted for a link is that of an edge with this link. -/
theorem edgeNumber?_eq_some (sound : g.Sound) {s t : Handle} {kind : EdgeKind} {n : Nat}
    (numbered : g.edgeNumber? s t kind = some n) :
    ∃ e, g.edges.toList[n]? = some e ∧ e.link = (s, t, kind) :=
  Option.map_eq_some_iff.mp (sound.numbers_iff.mp numbered)

/-- A link without a number has no edge.  So the edge that is added for it is its first and, from
then on, its only one. -/
theorem edgeNumber?_eq_none (sound : g.Sound) {s t : Handle} {kind : EdgeKind}
    (missing : g.edgeNumber? s t kind = none) : (s, t, kind) ∉ g.edges.toList.map Edge.link := by
  intro listed
  obtain ⟨n, found⟩ := List.mem_iff_getElem?.mp listed
  rw [List.getElem?_map] at found
  have numbered : g.edgeNumber? s t kind = some n := sound.numbers_iff.mpr found
  rw [missing] at numbered
  cases numbered

end Sound

/-! ## New vertices -/

/-- A vertex that is known stays where it is. -/
theorem addVertex_of_known {g : Graph} {h : Handle} {node : Nat} (known : g.node? h = some node) :
    g.addVertex h = (node, g) := by
  unfold addVertex
  rw [known]

/-- A new vertex gets a node of its own; the nodes of all other handles stay what they are. -/
theorem node?_addVertex (g : Graph) (h x : Handle) :
    (g.addVertex h).2.node? x =
      if h = x then some (g.addVertex h).1 else g.node? x := by
  unfold addVertex
  split
  · next node known =>
      split
      · next same => exact same ▸ known
      · rfl
  · unfold node?
    rw [Std.ExtTreeMap.getElem?_insert]
    simp only [Std.LawfulEqOrd.compare_eq_iff_eq]

/-- One more handle is a vertex, or none if it was one before. -/
theorem contains_addVertex (g : Graph) (h x : Handle) :
    (g.addVertex h).2.contains x = (h == x || g.contains x) := by
  rw [Bool.eq_iff_iff, Bool.or_eq_true, beq_iff_eq, contains_iff_node?, contains_iff_node?,
    node?_addVertex]
  split
  · next same => exact iff_of_true ⟨_, rfl⟩ (.inl same)
  · next other => exact (or_iff_right other).symm

/-- A vertex that is added has no edges yet. -/
theorem edges_addVertex (g : Graph) (h : Handle) : (g.addVertex h).2.edges = g.edges := by
  unfold addVertex
  split <;> rfl

theorem arcs_addVertex (g : Graph) (h : Handle) : (g.addVertex h).2.arcs = g.arcs := by
  unfold addVertex
  split <;> rfl

/-- Adding a vertex leaves the numbers of the links alone. -/
theorem numbers_addVertex (g : Graph) (h : Handle) : (g.addVertex h).2.numbers = g.numbers := by
  unfold addVertex
  split <;> rfl

/-- A new vertex has no edges, like a number that is not a node.  So adding one changes no list of
incident edges. -/
theorem incident_addVertex (g : Graph) (h : Handle) {side : Incidence → List Nat}
    (bare : side {} = []) (node : Nat) :
    (g.addVertex h).2.incident side node = g.incident side node := by
  unfold addVertex
  split
  · rfl
  · unfold StoredGraph.incident
    rw [StoredGraph.addNode, Array.getElem?_push]
    split
    · next last =>
        rw [last, Array.getElem?_eq_none (Nat.le_refl _)]
        exact bare
    · rfl

/-- A handle that is no vertex yet becomes the last one. -/
theorem vertices_addVertex (g : Graph) (h : Handle) :
    (g.addVertex h).2.vertices.toList =
      if g.contains h then g.vertices.toList else g.vertices.toList ++ [h] := by
  unfold addVertex contains node?
  rw [Std.ExtTreeMap.contains_eq_isSome_getElem?]
  split
  · next known => simp [known]
  · next new => simp [new, StoredGraph.addNode]

/-- The place of a new vertex is behind the others, and no vertex changes its place.  Adding a
vertex that is there already leaves the graph as it is. -/
theorem Sound.node?_addVertex_iff {g : Graph} (sound : g.Sound) (h : Handle) {x : Handle}
    {node : Nat} : (g.addVertex h).2.node? x = some node ↔
      (g.addVertex h).2.vertices[node]? = some x := by
  cases known : g.node? h with
  | some place =>
      rw [addVertex_of_known known]
      exact sound.node?_iff
  | none =>
      have vertices : (g.addVertex h).2.vertices = g.vertices.push h := by
        rw [addVertex, known]
        rfl
      have place : (g.addVertex h).1 = g.vertices.size := by
        rw [addVertex, known]
        rfl
      rw [node?_addVertex, vertices, place, Array.getElem?_push]
      by_cases same : h = x
      · subst same
        rw [if_pos rfl, Option.some.injEq]
        split
        · next last => exact iff_of_true last.symm rfl
        · -- an early place of `h` would have made it known
          next early =>
            refine iff_of_false (fun last => early last.symm) fun found => ?_
            rw [sound.node?_iff.mpr found] at known
            cases known
      · rw [if_neg same, sound.node?_iff]
        split
        · next last =>
            rw [last, Array.getElem?_eq_none (Nat.le_refl _)]
            exact iff_of_false (Option.some_ne_none _).symm fun equal =>
              same (Option.some.inj equal)
        · rfl

/-- A vertex that is known does not get another node. -/
theorem node?_addVertex_of_known {g : Graph} {x : Handle} {node : Nat}
    (known : g.node? x = some node) (h : Handle) : (g.addVertex h).2.node? x = some node := by
  rw [node?_addVertex]
  split
  · next same =>
      subst same
      rw [addVertex_of_known known]
  · exact known

/-- Adding a vertex keeps a graph sound: its node is the next number, and nothing is incident to
it.  What is said about edges is about nodes that were there before, and stays true. -/
theorem Sound.addVertex {g : Graph} (sound : g.Sound) (h : Handle) : (g.addVertex h).2.Sound where
  node?_iff := sound.node?_addVertex_iff h
  size_incidence := by
    unfold Graph.addVertex
    split
    · exact sound.size_incidence
    · rw [StoredGraph.addNode, Array.size_push, Array.size_push, sound.size_incidence]
  size_arcs := by
    rw [arcs_addVertex, edges_addVertex]
    exact sound.size_arcs
  joins {n e arc} found stored := by
    rw [edges_addVertex] at found
    rw [arcs_addVertex] at stored
    obtain ⟨source, target⟩ := sound.joins found stored
    exact ⟨node?_addVertex_of_known source h, node?_addVertex_of_known target h⟩
  leaving_perm node := by
    rw [incident_addVertex g h rfl, arcs_addVertex]
    exact sound.leaving_perm node
  entering_perm node := by
    rw [incident_addVertex g h rfl, arcs_addVertex]
    exact sound.entering_perm node
  nodup_links := by
    rw [edges_addVertex]
    exact sound.nodup_links
  numbers_iff := by
    rw [edges_addVertex, numbers_addVertex]
    exact sound.numbers_iff

/-- Making all types vertices adds no edge. -/
theorem edges_addTypes (g : Graph) (ix : Index) : (g.addTypes ix).edges = g.edges := by
  unfold addTypes
  induction ix.typeLevel generalizing g with
  | nil => rfl
  | cons e rest ih => rw [List.foldl_cons, ih, edges_addVertex]

/-- Making all types vertices keeps a graph sound, one vertex after the other. -/
theorem Sound.addTypes {g : Graph} (sound : g.Sound) (ix : Index) : (g.addTypes ix).Sound := by
  unfold Graph.addTypes
  induction ix.typeLevel generalizing g with
  | nil => exact sound
  | cons e rest ih => exact ih (sound.addVertex e.handle)

/-! ## Counting a dependency -/

section Connect

variable {g : Graph} (s t : Handle) (kind : EdgeKind)

/-- A new edge is noted where it leaves, before the others.  No other node lists it among those that
leave. -/
theorem incident_leaving_addEdge {a b : Nat} (inside : a < g.incidence.size) (e : Edge)
    (node : Nat) :
    (g.addEdge a b e).2.incident Incidence.leaving node =
      (if a = node then [g.edges.size] else []) ++ g.incident Incidence.leaving node := by
  unfold StoredGraph.incident StoredGraph.addEdge
  rw [Array.getElem?_modify, Array.getElem?_modify]
  by_cases same : a = node
  · subst same
    rw [Array.getElem?_eq_getElem inside]
    split <;> simp
  · rw [if_neg same, if_neg same]
    split
    · rw [Option.map_map]
      rfl
    · rfl

/-- A new edge is noted where it enters, before the others. -/
theorem incident_entering_addEdge {a b : Nat} (inside : b < g.incidence.size) (e : Edge)
    (node : Nat) :
    (g.addEdge a b e).2.incident Incidence.entering node =
      (if b = node then [g.edges.size] else []) ++ g.incident Incidence.entering node := by
  unfold StoredGraph.incident StoredGraph.addEdge
  rw [Array.getElem?_modify, Array.getElem?_modify]
  by_cases same : b = node
  · subst same
    rw [if_pos rfl, if_pos rfl, Array.getElem?_eq_getElem inside]
    split <;> simp
  · rw [if_neg same, if_neg same]
    split
    · rw [Option.map_map]
      rfl
    · rfl

/-- The two ends of a link become vertices before its edge is added, so the number of the edge is
still that of the old graph. -/
theorem addLink_eq (g : Graph) :
    g.addLink s t kind =
      (g.edges.size,
        { ((g.addVertex s).2.addVertex t).2 with
          toStoredGraph := (((g.addVertex s).2.addVertex t).2.addEdge (g.addVertex s).1
            ((g.addVertex s).2.addVertex t).1 { source := s, target := t, kind := kind }).2
          numbers := g.numbers.insert (s, t, kind) g.edges.size }) := by
  have edges : ((g.addVertex s).2.addVertex t).2.edges = g.edges := by
    rw [edges_addVertex, edges_addVertex]
  have numbers : ((g.addVertex s).2.addVertex t).2.numbers = g.numbers := by
    rw [numbers_addVertex, numbers_addVertex]
  unfold addLink StoredGraph.addEdge
  simp only [edges, numbers]

/-- A new link is noted with the next position.  It has to be new: an old position of the same link
would be overwritten, and then there would be two edges for one link. -/
theorem numbers_iff_of_new (sound : g.Sound) {e : Edge}
    (fresh : e.link ∉ g.edges.toList.map Edge.link) {link : Link} {n : Nat} :
    (g.numbers.insert e.link g.edges.size)[link]? = some n ↔
      ((g.edges.toList ++ [e])[n]?).map Edge.link = some link := by
  have outside : (g.edges.toList[g.edges.size]?).map Edge.link = none := by simp
  rw [Std.ExtTreeMap.getElem?_insert, link_concat, Array.length_toList]
  by_cases same : e.link = link
  · subst same
    rw [if_pos Std.ReflOrd.compare_self, Option.some.injEq, eq_comm]
    split
    · next last => exact iff_of_true last rfl
    · next early =>
        refine iff_of_false early fun found => fresh ?_
        rw [← List.getElem?_map] at found
        exact List.mem_of_getElem? found
  · rw [if_neg fun equal => same (Std.LawfulEqOrd.compare_eq_iff_eq.mp equal), sound.numbers_iff]
    split
    · next last =>
        rw [last, outside]
        exact iff_of_false (Option.some_ne_none _).symm fun equal => same (Option.some.inj equal)
    · rfl

/-- The node of a vertex is in range, so there are lists of incident edges to be read at it. -/
theorem Sound.node_lt (sound : g.Sound) {h : Handle} {a : Nat} (node : g.node? h = some a) :
    a < g.incidence.size := by
  rw [sound.size_incidence]
  exact (Array.getElem?_eq_some_iff.mp (sound.node?_iff.mp node)).1

/-- The number of a new edge comes first where the edge leaves and last among the positions. -/
theorem perm_concat {old kept : List Nat} (perm : old.Perm kept) {test test' : Prop}
    [Decidable test] [Decidable test'] (same : test ↔ test') (n : Nat) :
    ((if test then [n] else []) ++ old).Perm (kept ++ if test' then [n] else []) := by
  rw [if_congr same rfl rfl]
  exact (List.Perm.append_left _ perm).trans List.perm_append_comm

/-- A first edge between two vertices keeps a graph sound.  Its number is the next position, which
is added to the edges that leave the one node and to those that enter the other, and nowhere else.
-/
theorem Sound.addEdge (sound : g.Sound) {a b : Nat} (source : g.node? s = some a)
    (target : g.node? t = some b) (fresh : (s, t, kind) ∉ g.edges.toList.map Edge.link) :
    Sound { g with
      toStoredGraph := (g.addEdge a b { source := s, target := t, kind := kind }).2
      numbers := g.numbers.insert (s, t, kind) g.edges.size } where
  node?_iff := sound.node?_iff
  size_incidence := by
    show ((g.incidence.modify _ _).modify _ _).size = _
    rw [Array.size_modify, Array.size_modify]
    exact sound.size_incidence
  size_arcs := by
    show (g.arcs.push _).size = (g.edges.push _).size
    rw [Array.size_push, Array.size_push, sound.size_arcs]
  joins {n e arc} found stored := by
    have found : (g.edges.push { source := s, target := t, kind := kind })[n]? = some e := found
    have stored : (g.arcs.push ⟨a, b⟩)[n]? = some arc := stored
    rw [Array.getElem?_push] at found stored
    rw [sound.size_arcs] at stored
    split at found
    · next last =>
        rw [if_pos last] at stored
        cases found
        cases stored
        exact ⟨source, target⟩
    · next early =>
        rw [if_neg early] at stored
        exact sound.joins found stored
  -- the new number stands first in a list of incident edges and last among positions
  leaving_perm node := by
    show ((g.addEdge a b _).2.incident Incidence.leaving node).Perm
      (positions (g.arcs.push ⟨a, b⟩).toList _)
    rw [incident_leaving_addEdge (sound.node_lt source), Array.toList_push, positions_concat,
      Array.length_toList, sound.size_arcs]
    exact perm_concat (sound.leaving_perm node) beq_iff_eq.symm _
  entering_perm node := by
    show ((g.addEdge a b _).2.incident Incidence.entering node).Perm
      (positions (g.arcs.push ⟨a, b⟩).toList _)
    rw [incident_entering_addEdge (sound.node_lt target), Array.toList_push, positions_concat,
      Array.length_toList, sound.size_arcs]
    exact perm_concat (sound.entering_perm node) beq_iff_eq.symm _
  nodup_links := by
    show ((g.edges.push _).toList.map Edge.link).Nodup
    rw [Array.toList_push, List.map_append, List.nodup_append]
    refine ⟨sound.nodup_links, by simp, ?_⟩
    rintro link listed new single rfl
    rw [List.map_singleton, List.mem_singleton] at single
    rw [single] at listed
    exact fresh listed
  numbers_iff {link n} := by
    show (g.numbers.insert _ _)[link]? = some n ↔ ((g.edges.push _).toList[n]?).map Edge.link = _
    rw [Array.toList_push]
    exact numbers_iff_of_new (e := { source := s, target := t, kind := kind }) sound fresh

/-- The first edge of a link keeps a graph sound, also if its ends are new and become vertices with
it. -/
theorem Sound.addLink (sound : g.Sound) (fresh : (s, t, kind) ∉ g.edges.toList.map Edge.link) :
    (g.addLink s t kind).2.Sound := by
  have vertices := (sound.addVertex s).addVertex t
  have source : ((g.addVertex s).2.addVertex t).2.node? s = some (g.addVertex s).1 :=
    node?_addVertex_of_known (by rw [node?_addVertex, if_pos rfl]) t
  have target : ((g.addVertex s).2.addVertex t).2.node? t =
      some ((g.addVertex s).2.addVertex t).1 := by rw [node?_addVertex, if_pos rfl]
  have edges : ((g.addVertex s).2.addVertex t).2.edges = g.edges := by
    rw [edges_addVertex, edges_addVertex]
  have numbers : ((g.addVertex s).2.addVertex t).2.numbers = g.numbers := by
    rw [numbers_addVertex, numbers_addVertex]
  rw [addLink_eq, ← edges, ← numbers]
  exact vertices.addEdge s t kind source target (by rwa [edges])

/-- Counting a use changes no link. -/
theorem link_countUse (g : Graph) (n i : Nat) :
    ((g.countUse n).edges[i]?).map Edge.link = (g.edges[i]?).map Edge.link := by
  show ((g.edges.modify n _)[i]?).map Edge.link = _
  rw [Array.getElem?_modify]
  split
  · rw [Option.map_map]
    rfl
  · rfl

/-- Counting a use keeps a graph sound, because no invariant is about usages.  All that is looked at
are the links of the edges, and these stay the same at every position. -/
theorem Sound.countUse (sound : g.Sound) (n : Nat) : (g.countUse n).Sound where
  node?_iff := sound.node?_iff
  size_incidence := sound.size_incidence
  size_arcs := by
    show _ = (g.edges.modify _ _).size
    rw [Array.size_modify]
    exact sound.size_arcs
  -- the edge may be the one that is counted, so only its ends are compared
  joins {i e arc} found stored := by
    have linked := g.link_countUse n i
    rw [found, Option.map_some] at linked
    obtain ⟨old, found, linked⟩ := Option.map_eq_some_iff.mp linked.symm
    have ends : old.source = e.source ∧ old.target = e.target :=
      ⟨congrArg (·.1) linked, congrArg (·.2.1) linked⟩
    rw [← ends.1, ← ends.2]
    exact sound.joins found stored
  leaving_perm := sound.leaving_perm
  entering_perm := sound.entering_perm
  nodup_links := by
    have same : (g.countUse n).edges.toList.map Edge.link = g.edges.toList.map Edge.link := by
      refine List.ext_getElem? fun i => ?_
      rw [List.getElem?_map, List.getElem?_map, Array.getElem?_toList, Array.getElem?_toList]
      exact g.link_countUse n i
    rw [same]
    exact sound.nodup_links
  numbers_iff {link i} := by
    rw [Array.getElem?_toList, g.link_countUse, ← Array.getElem?_toList]
    exact sound.numbers_iff

/-- A dependency raises the usage of its edge, or is a new edge at the end.  No other edge changes,
and none is moved. -/
theorem edges_connect (sound : g.Sound) (apart : s ≠ t) :
    (g.connect s t kind).2.edges.toList =
      if (s, t, kind) ∈ g.edges.toList.map Edge.link then
        g.edges.toList.map (Edge.bump (s, t, kind))
      else g.edges.toList ++ [{ source := s, target := t, kind := kind }] := by
  rw [connect, if_neg apart]
  split
  · next n numbered =>
      obtain ⟨e, found, linked⟩ := sound.edgeNumber?_eq_some numbered
      rw [if_pos (List.mem_map.mpr ⟨e, List.mem_of_getElem? found, linked⟩), ← linked]
      exact (Array.toList_modify ..).trans (modify_eq_map_bump sound.nodup_links found)
  · next missing =>
      rw [if_neg (sound.edgeNumber?_eq_none missing), addLink_eq]
      show (((g.addVertex s).2.addVertex t).2.edges.push _).toList = _
      rw [edges_addVertex, edges_addVertex, Array.toList_push]

/-- **Counting a dependency keeps a graph sound**, whether its edge is new or was there before. -/
theorem Sound.connect (sound : g.Sound) : (g.connect s t kind).2.Sound := by
  unfold Graph.connect
  split
  · exact sound
  · split
    · next n _ => exact sound.countUse n
    · next missing => exact sound.addLink s t kind (sound.edgeNumber?_eq_none missing)

/-- The ends of a dependency are vertices in the end, if they were not before. -/
theorem node?_addLink_of_known (source : g.contains s = true) (target : g.contains t = true)
    (h : Handle) : (g.addLink s t kind).2.node? h = g.node? h := by
  obtain ⟨a, first⟩ := contains_iff_node?.mp source
  obtain ⟨b, second⟩ := contains_iff_node?.mp target
  rw [addLink_eq, addVertex_of_known first, addVertex_of_known second]
  rfl

/-- A dependency between vertices makes no vertex. -/
theorem contains_connect (source : g.contains s = true) (target : g.contains t = true)
    (h : Handle) : (g.connect s t kind).2.contains h = g.contains h := by
  unfold connect
  split
  · rfl
  · split
    · rfl
    · rw [Bool.eq_iff_iff, contains_iff_node?, contains_iff_node?]
      simp only [node?_addLink_of_known s t kind source target h]

/-- Between two vertices a dependency adds no further vertex. -/
theorem vertices_connect (source : g.contains s = true) (target : g.contains t = true) :
    (g.connect s t kind).2.vertices = g.vertices := by
  obtain ⟨a, first⟩ := contains_iff_node?.mp source
  obtain ⟨b, second⟩ := contains_iff_node?.mp target
  unfold connect
  split
  · rfl
  · split
    · rfl
    · rw [addLink_eq, addVertex_of_known first, addVertex_of_known second]
      rfl

/-- Only a dependency of a handle on itself has no number. -/
theorem exists_connect_number (g : Graph) (apart : s ≠ t) :
    ∃ n, (g.connect s t kind).1 = some n := by
  rw [connect, if_neg apart]
  split
  · exact ⟨_, rfl⟩
  · exact ⟨_, rfl⟩

/-- A dependency between two handles is counted at an edge that is there, or it makes the next
edge.  Either way it is answered with the number of its edge. -/
theorem connect_cases (sound : g.Sound) (apart : s ≠ t) :
    ∃ n, (g.connect s t kind).1 = some n ∧
      ((∃ e, g.edges[n]? = some e ∧ e.link = (s, t, kind)) ∧
          (g.connect s t kind).2.edges =
            g.edges.modify n (fun e => { e with usage := e.usage + 1 }) ∨
        n = g.edges.size ∧ (g.connect s t kind).2.edges =
          g.edges.push { source := s, target := t, kind := kind }) := by
  rw [connect, if_neg apart]
  split
  · next n numbered =>
      obtain ⟨e, found, linked⟩ := sound.edgeNumber?_eq_some numbered
      rw [Array.getElem?_toList] at found
      exact ⟨n, rfl, .inl ⟨⟨e, found, linked⟩, rfl⟩⟩
  · refine ⟨g.edges.size, by rw [addLink_eq], .inr ⟨rfl, ?_⟩⟩
    rw [addLink_eq]
    show ((g.addVertex s).2.addVertex t).2.edges.push _ = _
    rw [edges_addVertex, edges_addVertex]

end Connect

end Graph

end CodeMetrics
