import CodeMetrics.Measure.Cohesion
import Mathlib.Combinatorics.SimpleGraph.Connectivity.Connected
import Mathlib.SetTheory.Cardinal.Finite

/-!
# Blocks are connected components

The components of a cohesion graph are computed from its links, one after the other: the blocks
that a link touches become one.  `CohesionGraph.Draws.card_connectedComponent` says that the blocks
that are left are the connected components of the undirected graph.

The invariant has two sides.  The nodes of a block can be reached from each other in the whole
graph, so that no block is too large.  The ends of every link met so far are in one block, so that in
the end no block is too small (`CohesionGraph.Partitions`).

Not every pair of nodes that belong together is stored as a link.  A node is not linked to itself,
and two nodes that are linked already are not linked again, in either direction.  What is stored is
still enough for the undirected graph (`CohesionGraph.Spans`).
-/

namespace CodeMetrics

namespace CohesionGraph

variable {V : Finset String} {G : SimpleGraph V} {x y z key : String} {block : List String}
  {blocks : List (List String)} {done : List (String × String)} {link : String × String}

/-- Both are vertices, and one can be reached from the other. -/
def Reaches (G : SimpleGraph V) (x y : String) : Prop :=
  ∃ (inside : x ∈ V) (inside' : y ∈ V), G.Reachable ⟨x, inside⟩ ⟨y, inside'⟩

theorem Reaches.symm (reaches : Reaches G x y) : Reaches G y x := by
  obtain ⟨inside, inside', reachable⟩ := reaches
  exact ⟨inside', inside, SimpleGraph.Reachable.symm reachable⟩

theorem Reaches.trans (first : Reaches G x y) (second : Reaches G y z) : Reaches G x z := by
  obtain ⟨inside, _, reachable⟩ := first
  obtain ⟨_, inside', reachable'⟩ := second
  exact ⟨inside, inside', SimpleGraph.Reachable.trans reachable reachable'⟩

/-! ## One link -/

/-- One end of the link is in the block. -/
def Touches (link : String × String) (block : List String) : Prop :=
  link.1 ∈ block ∨ link.2 ∈ block

instance : Decidable (Touches link block) := inferInstanceAs (Decidable (_ ∨ _))

/-- The blocks that the link touches become the first block.  Of disjoint blocks these are at most
two. -/
theorem join_eq (touched : ∃ block ∈ blocks, Touches link block) :
    join blocks link = (blocks.filter fun block => Touches link block).flatten ::
      blocks.filter fun block => ¬ Touches link block := by
  have test : ∀ block : List String,
      (block.contains link.1 || block.contains link.2) = decide (Touches link block) := by
    intro block
    rw [List.contains_eq_mem, List.contains_eq_mem, ← Bool.decide_or]
    rfl
  obtain ⟨block, listed, touches⟩ := touched
  simp only [join, test]
  split
  next none =>
    have refused := List.filter_eq_nil_iff.mp none block listed
    exact absurd (decide_eq_true touches) refused
  next => simp only [decide_not]

/-! ## Blocks of nodes that reach each other -/

/-- The blocks are made of the vertices.  The nodes of each reach each other, and each link that was
met is within one. -/
structure Partitions (G : SimpleGraph V) (done : List (String × String))
    (blocks : List (List String)) : Prop where
  nonempty : ∀ block ∈ blocks, block ≠ []
  mem_iff : ∀ key, key ∈ V ↔ ∃ block ∈ blocks, key ∈ block
  disjoint : blocks.Pairwise List.Disjoint
  within : ∀ block ∈ blocks, ∀ x ∈ block, ∀ y ∈ block, Reaches G x y
  joined : ∀ link ∈ done, ∃ block ∈ blocks, link.1 ∈ block ∧ link.2 ∈ block

namespace Partitions

/-- At first every node is a block.  No edge is met yet, so no two nodes need to be together. -/
theorem singletons {nodes : List String} (nodup : nodes.Nodup)
    (same : ∀ key, key ∈ V ↔ key ∈ nodes) : Partitions G [] (nodes.map ([·])) where
  nonempty block listed := by
    obtain ⟨key, -, rfl⟩ := List.mem_map.mp listed
    exact List.cons_ne_nil key []
  mem_iff := by simp [same]
  disjoint := by
    rw [List.pairwise_map]
    exact nodup.imp fun other => by simpa using Ne.symm other
  within block listed x hx y hy := by
    obtain ⟨key, inside, rfl⟩ := List.mem_map.mp listed
    rw [List.mem_singleton] at hx hy
    subst hx hy
    exact ⟨(same _).mpr inside, (same _).mpr inside, .rfl⟩
  joined link listed := by cases listed

/-- A node is in one block only. -/
theorem eq_of_mem (partitions : Partitions G done blocks) {block' : List String}
    (listed : block ∈ blocks) (listed' : block' ∈ blocks) (inside : key ∈ block)
    (inside' : key ∈ block') : block = block' := by
  have : Std.Symm (List.Disjoint (α := String)) := ⟨fun _ _ apart => List.Disjoint.symm apart⟩
  by_contra other
  exact partitions.disjoint.forall listed listed' other inside inside'

/-- All nodes of the blocks that a link touches reach its first end. -/
theorem reaches_of_touches (partitions : Partitions G done blocks)
    (reaches : Reaches G link.1 link.2) (listed : block ∈ blocks) (touches : Touches link block)
    (inside : x ∈ block) : Reaches G x link.1 := by
  rcases touches with first | second
  · exact partitions.within block listed x inside link.1 first
  · exact (partitions.within block listed x inside link.2 second).trans reaches.symm

/-- One more link is met.  The blocks that it touches become one, and the other blocks stay.  That
the ends can reach each other in the graph is what keeps every block within one component. -/
theorem join (partitions : Partitions G done blocks) (reaches : Reaches G link.1 link.2) :
    Partitions G (link :: done) (CohesionGraph.join blocks link) := by
  have ⟨first, second, _⟩ := reaches
  obtain ⟨block₁, listed₁, inside₁⟩ := (partitions.mem_iff link.1).mp first
  obtain ⟨block₂, listed₂, inside₂⟩ := (partitions.mem_iff link.2).mp second
  rw [join_eq ⟨block₁, listed₁, .inl inside₁⟩]
  -- a node of the new block, by the block that it comes from
  have mem_flatten : ∀ {key}, key ∈ (blocks.filter fun block => Touches link block).flatten ↔
      ∃ block ∈ blocks, Touches link block ∧ key ∈ block := by
    simp [and_assoc]
  have mem_rest : ∀ {block}, block ∈ (blocks.filter fun block => ¬ Touches link block) ↔
      block ∈ blocks ∧ ¬ Touches link block := by
    simp
  refine ⟨?nonempty, ?mem_iff, ?disjoint, ?within, ?joined⟩
  case nonempty =>
    refine List.forall_mem_cons.mpr ⟨?_, fun block listed => ?_⟩
    · exact List.ne_nil_of_mem (mem_flatten.mpr ⟨block₁, listed₁, .inl inside₁, inside₁⟩)
    · exact partitions.nonempty block (mem_rest.mp listed).1
  case mem_iff =>
    intro key
    rw [partitions.mem_iff, List.exists_mem_cons_iff, mem_flatten]
    constructor
    · rintro ⟨block, listed, inside⟩
      by_cases touches : Touches link block
      · exact .inl ⟨block, listed, touches, inside⟩
      · exact .inr ⟨block, mem_rest.mpr ⟨listed, touches⟩, inside⟩
    · rintro (⟨block, listed, -, inside⟩ | ⟨block, listed, inside⟩)
      · exact ⟨block, listed, inside⟩
      · exact ⟨block, (mem_rest.mp listed).1, inside⟩
  case disjoint =>
    refine List.pairwise_cons.mpr ⟨fun block listed key inside inside' => ?_,
      partitions.disjoint.filter _⟩
    obtain ⟨block', listed', touches, inside⟩ := mem_flatten.mp inside
    obtain ⟨listed, apart⟩ := mem_rest.mp listed
    have same := partitions.eq_of_mem listed listed' inside' inside
    exact apart (same ▸ touches)
  case within =>
    refine List.forall_mem_cons.mpr ⟨fun x hx y hy => ?_, fun block listed => ?_⟩
    · obtain ⟨block, listed, touches, inside⟩ := mem_flatten.mp hx
      obtain ⟨block', listed', touches', inside'⟩ := mem_flatten.mp hy
      exact (partitions.reaches_of_touches reaches listed touches inside).trans
        (partitions.reaches_of_touches reaches listed' touches' inside').symm
    · exact partitions.within block (mem_rest.mp listed).1
  case joined =>
    refine List.forall_mem_cons.mpr ⟨?_, fun link' met => ?_⟩
    · exact ⟨_, List.mem_cons_self,
        mem_flatten.mpr ⟨block₁, listed₁, .inl inside₁, inside₁⟩,
        mem_flatten.mpr ⟨block₂, listed₂, .inr inside₂, inside₂⟩⟩
    · obtain ⟨block, listed, ends⟩ := partitions.joined link' met
      by_cases touches : Touches link block
      · exact ⟨_, List.mem_cons_self, mem_flatten.mpr ⟨block, listed, touches, ends.1⟩,
          mem_flatten.mpr ⟨block, listed, touches, ends.2⟩⟩
      · exact ⟨block, List.mem_cons_of_mem _ (mem_rest.mpr ⟨listed, touches⟩), ends⟩

/-- A list of links is met. -/
theorem foldl {links : List (String × String)} (partitions : Partitions G done blocks)
    (reaches : ∀ link ∈ links, Reaches G link.1 link.2) :
    Partitions G (links.reverse ++ done) (links.foldl CohesionGraph.join blocks) := by
  induction links generalizing done blocks with
  | nil => exact partitions
  | cons link links ih =>
    rw [List.forall_mem_cons] at reaches
    rw [List.reverse_cons, List.append_assoc]
    exact ih (partitions.join reaches.1) reaches.2

/-- Once every edge is met, what can be reached from a node is in its block.  The induction is on
the walk, edge by edge. -/
theorem mem_of_reachable (partitions : Partitions G done blocks)
    (all : ∀ u v : V, G.Adj u v → (u.1, v.1) ∈ done ∨ (v.1, u.1) ∈ done) {u v : V}
    (listed : block ∈ blocks) (inside : u.1 ∈ block) (reachable : G.Reachable u v) :
    v.1 ∈ block := by
  obtain ⟨walk⟩ := reachable
  induction walk with
  | nil => exact inside
  | cons adjacent _ ih =>
    refine ih ?_
    rcases all _ _ adjacent with met | met
    · obtain ⟨block', listed', first, second⟩ := partitions.joined _ met
      exact partitions.eq_of_mem listed' listed first inside ▸ second
    · obtain ⟨block', listed', first, second⟩ := partitions.joined _ met
      exact partitions.eq_of_mem listed' listed second inside ▸ first

/-- When all links are met, the blocks are the connected components.  Two vertices of one block can
reach each other, and adjacent vertices are in one block. -/
theorem card_connectedComponent (partitions : Partitions G done blocks)
    (all : ∀ u v : V, G.Adj u v → (u.1, v.1) ∈ done ∨ (v.1, u.1) ∈ done) :
    Nat.card G.ConnectedComponent = blocks.length := by
  -- a node of each block stands for it
  have represented : ∀ i : Fin blocks.length, ∃ v : V, v.1 ∈ blocks.get i := by
    intro i
    obtain ⟨key, inside⟩ :=
      List.exists_mem_of_ne_nil _ (partitions.nonempty _ (blocks.get_mem i))
    exact ⟨⟨key, (partitions.mem_iff key).mpr ⟨_, blocks.get_mem i, inside⟩⟩, inside⟩
  choose node inside using represented
  rw [← Nat.card_fin blocks.length]
  refine (Nat.card_eq_of_bijective (fun i => G.connectedComponentMk (node i)) ⟨?_, ?_⟩).symm
  · intro i j same
    have reachable := SimpleGraph.ConnectedComponent.eq.mp same
    have shared := partitions.mem_of_reachable all (blocks.get_mem i) (inside i) reachable
    by_contra other
    rcases Nat.lt_or_gt_of_ne (Fin.val_ne_of_ne other) with before | before
    · exact List.pairwise_iff_get.mp partitions.disjoint i j before shared (inside j)
    · exact List.pairwise_iff_get.mp partitions.disjoint j i before (inside j) shared
  · intro component
    induction component using SimpleGraph.ConnectedComponent.ind with
    | _ v =>
      obtain ⟨block, listed, member⟩ := (partitions.mem_iff v.1).mp v.2
      obtain ⟨i, rfl⟩ := List.mem_iff_get.mp listed
      obtain ⟨_, _, reachable⟩ := partitions.within _ listed _ (inside i) _ member
      exact ⟨i, SimpleGraph.ConnectedComponent.eq.mpr reachable⟩

end Partitions

/-! ## Links -/

section Links

variable {g : CohesionGraph} {pairs pairs' : String × String → Prop} {a b : String}

theorem linked_iff : g.linked a b = true ↔ (a, b) ∈ g.links ∨ (b, a) ∈ g.links := by
  rw [linked, Bool.or_eq_true, List.contains_iff_mem, List.contains_iff_mem]

/-- The nodes of a link are added, whether it is kept or not. -/
theorem nodes_link (g : CohesionGraph) (a b : String) :
    (g.link a b).nodes = (g.nodes.insert a).insert b := by
  dsimp only [CohesionGraph.link]
  split <;> rfl

/-- The links are among the pairs.  A pair that is not a link is a node with itself, or the link
leads the other way. -/
structure Spans (g : CohesionGraph) (pairs : String × String → Prop) : Prop where
  among : ∀ link ∈ g.links, pairs link
  linked : ∀ link, pairs link → link.1 = link.2 ∨ g.linked link.1 link.2 = true

namespace Spans

theorem congr (spans : g.Spans pairs) (same : ∀ link, pairs' link ↔ pairs link) :
    g.Spans pairs' where
  among link listed := (same link).mpr (spans.among link listed)
  linked link pair := spans.linked link ((same link).mp pair)

/-- Pairs of different nodes are linked, in one direction or the other. -/
theorem linked_iff (spans : g.Spans pairs) (other : a ≠ b) :
    (a, b) ∈ g.links ∨ (b, a) ∈ g.links ↔ pairs (a, b) ∨ pairs (b, a) := by
  constructor
  · exact Or.imp (spans.among _) (spans.among _)
  · rintro (pair | pair)
    · exact CohesionGraph.linked_iff.mp ((spans.linked _ pair).resolve_left other)
    · exact (CohesionGraph.linked_iff.mp ((spans.linked _ pair).resolve_left other.symm)).symm

/-- The guard of a link leaves out what would join no other nodes: a link of a node to itself, and a
link that is there already. -/
theorem add (spans : g.Spans pairs) (a b : String) :
    (g.link a b).Spans fun link => pairs link ∨ link = (a, b) := by
  dsimp only [CohesionGraph.link]
  split
  next idle =>
    rw [Bool.or_eq_true, beq_iff_eq] at idle
    refine ⟨fun link listed => .inl (spans.among link listed), ?_⟩
    rintro link (pair | rfl)
    · exact spans.linked link pair
    · exact idle
  next =>
    constructor
    · intro link listed
      rcases List.mem_cons.mp listed with rfl | listed
      · exact .inr rfl
      · exact .inl (spans.among link listed)
    · rintro link (pair | rfl)
      · refine (spans.linked link pair).imp_right fun linked => ?_
        rw [CohesionGraph.linked_iff] at linked ⊢
        exact linked.imp (List.mem_cons_of_mem _) (List.mem_cons_of_mem _)
      · exact .inr (CohesionGraph.linked_iff.mpr (.inl List.mem_cons_self))

end Spans

end Links

/-! ## The undirected graph of nodes and links -/

/-- The graph has the nodes as vertices and the links as edges. -/
structure Draws (g : CohesionGraph) (G : SimpleGraph V) : Prop where
  nodup : g.nodes.Nodup
  mem_iff : ∀ key, key ∈ V ↔ key ∈ g.nodes
  ends : ∀ link ∈ g.links, link.1 ∈ V ∧ link.2 ∈ V
  adj_iff : ∀ u v : V, G.Adj u v ↔ u ≠ v ∧ ((u.1, v.1) ∈ g.links ∨ (v.1, u.1) ∈ g.links)

theorem draws_iff {g : CohesionGraph} : Draws g G ↔
    g.nodes.Nodup ∧ V = g.nodes.toFinset ∧ (∀ link ∈ g.links, link.1 ∈ V ∧ link.2 ∈ V) ∧
      ∀ u v : V, G.Adj u v ↔ u ≠ v ∧ ((u.1, v.1) ∈ g.links ∨ (v.1, u.1) ∈ g.links) := by
  constructor
  · rintro ⟨nodup, mem_iff, ends, adj_iff⟩
    refine ⟨nodup, ?_, ends, adj_iff⟩
    ext key
    rw [mem_iff, List.mem_toFinset]
  · rintro ⟨nodup, nodes, ends, adj_iff⟩
    refine ⟨nodup, fun key => ?_, ends, adj_iff⟩
    rw [nodes, List.mem_toFinset]

instance {g : CohesionGraph} [DecidableRel G.Adj] : Decidable (Draws g G) :=
  decidable_of_iff _ draws_iff.symm

namespace Draws

variable {g : CohesionGraph}

theorem reaches (draws : Draws g G) (listed : link ∈ g.links) : Reaches G link.1 link.2 := by
  obtain ⟨first, second⟩ := draws.ends link listed
  refine ⟨first, second, ?_⟩
  by_cases same : link.1 = link.2
  · simp only [same, SimpleGraph.Reachable.refl]
  · have other : (⟨link.1, first⟩ : V) ≠ ⟨link.2, second⟩ := fun equal =>
      same (congrArg Subtype.val equal)
    exact SimpleGraph.Adj.reachable ((draws.adj_iff _ _).mpr ⟨other, .inl listed⟩)

/-- The components of a cohesion graph are the connected components of the graph that it draws. -/
theorem card_connectedComponent (draws : Draws g G) :
    Nat.card G.ConnectedComponent = g.components.length := by
  have start : Partitions G [] (g.nodes.map ([·])) := .singletons draws.nodup draws.mem_iff
  have partitions := start.foldl fun link listed => draws.reaches listed
  refine partitions.card_connectedComponent fun u v adjacent => ?_
  simpa using ((draws.adj_iff u v).mp adjacent).2

end Draws

/-- There are no more components than keys from which every vertex can be reached, since each
component has at least one of these keys. -/
theorem card_connectedComponent_le (roots : Finset String)
    (rooted : ∀ v : V, ∃ u : V, u.1 ∈ roots ∧ G.Reachable u v) :
    Nat.card G.ConnectedComponent ≤ roots.card := by
  have represented : ∀ component : G.ConnectedComponent, ∃ u : V,
      u.1 ∈ roots ∧ G.connectedComponentMk u = component := by
    intro component
    induction component using SimpleGraph.ConnectedComponent.ind with
    | _ v =>
      obtain ⟨u, root, reachable⟩ := rooted v
      exact ⟨u, root, SimpleGraph.ConnectedComponent.eq.mpr reachable⟩
  choose node root same using represented
  have injective :
      Function.Injective fun component => (⟨(node component).1, root component⟩ : roots) := by
    intro component component' equal
    have equal : node component = node component' := Subtype.ext (Subtype.mk.inj equal)
    rw [← same component, ← same component', equal]
  calc Nat.card G.ConnectedComponent
    _ ≤ Nat.card roots := Nat.card_le_card_of_injective _ injective
    _ = roots.card := by rw [Nat.card_eq_fintype_card, Fintype.card_coe]

end CohesionGraph

end CodeMetrics
