import CodeMetrics.Proofs.Graph.Incidence
import CodeMetrics.Proofs.Index.Registration

/-!
# The exported edges are a tally

Seen by keys, a graph is a tally of the dependencies that were counted in it: one edge for each
dependency, in the order in which they were first counted, whose usage is the number of times it was
counted.  `tally` computes this list of edges from the list of dependencies, and
`keyedEdges_connect` says that counting one more dependency in the graph counts it in the tally.

The handles of a graph belong to elements of an index that goes on growing.  `Graph.FoundedOn` says
that every vertex is a type or a placeholder there, and `Graph.Anchored` only that the ends of edges
are elements, which is all that the export asks for.  Since no element is ever lost, the keys of an
edge stay what they were.
-/

namespace CodeMetrics

/-! ## Tallies -/

/-- A dependency of one key on another, in one way. -/
structure Dependency where
  source : String
  target : String
  kind : EdgeKind
deriving DecidableEq

namespace KeyedEdge

/-- What an exported edge stands for, without its usage. -/
def dependency (e : KeyedEdge) : Dependency := ⟨e.source, e.target, e.kind⟩

/-- Counts one more use, if the edge stands for this dependency. -/
def bump (d : Dependency) (e : KeyedEdge) : KeyedEdge :=
  if e.dependency = d then { e with usage := e.usage + 1 } else e

end KeyedEdge

/-- The edge of a dependency that was counted in a list. -/
def Dependency.countedIn (ds : List Dependency) (d : Dependency) : KeyedEdge :=
  ⟨d.source, d.target, d.kind, UInt32.ofNat (ds.count d)⟩

/-- The edges of a list of dependencies, in the order in which they first occur. -/
def tally (ds : List Dependency) : List KeyedEdge := ds.eraseDups.map (Dependency.countedIn ds)

section EraseDups

variable {α : Type} [BEq α] [LawfulBEq α]

/-- A last entry stays among the distinct ones only if it has not occurred before. -/
theorem eraseDups_concat (l : List α) (a : α) :
    (l ++ [a]).eraseDups = if l.contains a then l.eraseDups else l.eraseDups ++ [a] := by
  have single : [a].removeAll l = if l.contains a then [] else [a] := by
    unfold List.removeAll
    cases known : l.contains a with
    | true => rw [List.filter_cons_of_neg (by simpa using known)]; rfl
    | false => rw [List.filter_cons_of_pos (by simpa using known)]; rfl
  rw [List.eraseDups_append, single]
  split
  · rw [List.eraseDups_nil, List.append_nil]
  · rw [List.eraseDups_cons]
    rfl

/-- What is left without repetitions has none. -/
theorem nodup_eraseDups (l : List α) : l.eraseDups.Nodup := by
  induction l using List.reverseRecOn with
  | nil => exact List.nodup_nil
  | append_singleton l a ih =>
      rw [eraseDups_concat]
      split
      · exact ih
      · next new =>
          rw [List.nodup_append]
          refine ⟨ih, by simp, ?_⟩
          rintro b listed c single rfl
          rw [List.mem_singleton.mp single, List.mem_eraseDups] at listed
          exact new (List.contains_iff_mem.mpr listed)

end EraseDups

section Tally

variable {ds : List Dependency} {d : Dependency}

/-- The tally has one entry for each dependency that occurs, with the number of its occurrences up
to the size of the counter. -/
theorem mem_tally_iff {e : KeyedEdge} :
    e ∈ tally ds ↔ e.dependency ∈ ds ∧ e.usage = UInt32.ofNat (ds.count e.dependency) := by
  rw [tally, List.mem_map]
  constructor
  · rintro ⟨d, listed, rfl⟩
    exact ⟨List.mem_eraseDups.mp listed, rfl⟩
  · rintro ⟨listed, usage⟩
    exact ⟨e.dependency, List.mem_eraseDups.mpr listed, by rw [Dependency.countedIn, ← usage]; rfl⟩

/-- The entries of a tally stand in the order in which their dependencies occurred first. -/
theorem map_dependency_tally (ds : List Dependency) :
    (tally ds).map KeyedEdge.dependency = ds.eraseDups := by
  rw [tally, List.map_map]
  exact List.map_id _

/-- No dependency has two edges. -/
theorem nodup_dependency_tally (ds : List Dependency) :
    ((tally ds).map KeyedEdge.dependency).Nodup := by
  rw [map_dependency_tally]
  exact nodup_eraseDups ds

/-- The order of the dependencies shows only in the order of the edges. -/
theorem tally_perm {ds' : List Dependency} (perm : ds.Perm ds') :
    (tally ds).Perm (tally ds') := by
  have distinct := (nodup_dependency_tally ds).of_map
  have distinct' := (nodup_dependency_tally ds').of_map
  rw [List.perm_ext_iff_of_nodup distinct distinct']
  intro e
  rw [mem_tally_iff, mem_tally_iff, perm.mem_iff, perm.count_eq]

/-- A dependency has an entry exactly if it occurs. -/
theorem mem_map_dependency_tally : d ∈ (tally ds).map KeyedEdge.dependency ↔ d ∈ ds := by
  rw [map_dependency_tally, List.mem_eraseDups]

/-- Counting a dependency again raises the usage of its edge, and leaves the order of the tally as
it is. -/
theorem tally_concat_of_mem (known : d ∈ ds) :
    tally (ds ++ [d]) = (tally ds).map (KeyedEdge.bump d) := by
  unfold tally
  rw [eraseDups_concat, if_pos (List.contains_iff_mem.mpr known), List.map_map]
  refine List.map_congr_left fun d' _ => ?_
  by_cases same : d' = d
  · subst same
    simp [KeyedEdge.bump, KeyedEdge.dependency, Dependency.countedIn, UInt32.ofNat_add]
  · have unlike : (Dependency.countedIn ds d').dependency ≠ d := same
    have uncounted : [d].count d' = 0 := List.count_eq_zero_of_not_mem (by simpa using same)
    rw [Function.comp_apply, KeyedEdge.bump, if_neg unlike, Dependency.countedIn,
      List.count_append, uncounted, Nat.add_zero, Dependency.countedIn]

/-- Counting a dependency for the first time adds an edge of usage one at the end. -/
theorem tally_concat_of_not_mem (new : d ∉ ds) :
    tally (ds ++ [d]) = tally ds ++ [⟨d.source, d.target, d.kind, 1⟩] := by
  have notContained : ds.contains d ≠ true := fun known => new (List.contains_iff_mem.mp known)
  unfold tally
  rw [eraseDups_concat, if_neg notContained, List.map_append]
  congr 1
  · refine List.map_congr_left fun d' listed => ?_
    have unlike : d ≠ d' := by
      rintro rfl
      exact new (List.mem_eraseDups.mp listed)
    simp [Dependency.countedIn, List.count_append, unlike]
  · simp [Dependency.countedIn, List.count_append, List.count_eq_zero_of_not_mem new]

end Tally

/-! ## Edges seen by keys -/

/-- An edge with the keys of its ends. -/
def Edge.keyed? (ix : Index) (e : Edge) : Option KeyedEdge := do
  let source ← ix.key? e.source
  let target ← ix.key? e.target
  return ⟨source, target, e.kind, e.usage⟩

/-- The edges with keys are those of the graph whose ends both have a key, in the same order. -/
theorem Graph.keyedEdges_eq (g : Graph) (ix : Index) :
    g.keyedEdges ix = g.edges.toList.filterMap (Edge.keyed? ix) := rfl

/-- An edge with keys has the keys of its ends, and kind and usage of the edge. -/
theorem Edge.keyed?_eq_some_iff {ix : Index} {e : Edge} {k : KeyedEdge} :
    e.keyed? ix = some k ↔
      ix.key? e.source = some k.source ∧ ix.key? e.target = some k.target ∧
        e.kind = k.kind ∧ e.usage = k.usage := by
  unfold keyed?
  cases ix.key? e.source with
  | none => simp
  | some source =>
      cases ix.key? e.target with
      | none => simp
      | some target =>
          obtain ⟨s, t, kind, usage⟩ := k
          simp [KeyedEdge.mk.injEq]

namespace Graph

variable {g : Graph} {ix ix' : Index} {s t : Handle} {source target : String} {kind : EdgeKind}

/-- Both ends of every edge are elements of the index. -/
def Anchored (g : Graph) (ix : Index) : Prop :=
  ∀ e ∈ g.edges.toList, ix.Knows e.source ∧ ix.Knows e.target

/-- In an anchored graph every edge has a form with keys, so none is lost when edges are listed by
keys. -/
theorem Anchored.exists_keyed? (anchored : g.Anchored ix) {e : Edge}
    (listed : e ∈ g.edges.toList) : ∃ k, e.keyed? ix = some k := by
  obtain ⟨source, target⟩ := anchored e listed
  obtain ⟨sourceKey, sourceNamed⟩ := Index.knows_iff_key?.mp source
  obtain ⟨targetKey, targetNamed⟩ := Index.knows_iff_key?.mp target
  exact ⟨⟨sourceKey, targetKey, e.kind, e.usage⟩,
    Edge.keyed?_eq_some_iff.mpr ⟨sourceNamed, targetNamed, rfl, rfl⟩⟩

/-- The exported edges are the edges, none left out. -/
theorem Anchored.map_keyed? (anchored : g.Anchored ix) :
    g.edges.toList.map (Edge.keyed? ix) = (g.keyedEdges ix).map some := by
  rw [keyedEdges_eq, List.map_filterMap_some_eq_filter_map_isSome, eq_comm, List.filter_eq_self]
  intro exported mapped
  obtain ⟨e, listed, rfl⟩ := List.mem_map.mp mapped
  obtain ⟨k, keyed⟩ := anchored.exists_keyed? listed
  rw [keyed]
  rfl

/-- Seen by keys, the link of an edge is its dependency.  This is where handles and keys must belong
to each other one to one. -/
theorem dependency_eq_iff (coherent : ix.Coherent) (sourceKey : ix.key? s = some source)
    (targetKey : ix.key? t = some target) {e : Edge} {k : KeyedEdge}
    (keyed : e.keyed? ix = some k) :
    k.dependency = ⟨source, target, kind⟩ ↔ e.link = (s, t, kind) := by
  obtain ⟨s', t', kind', usage'⟩ := e
  obtain ⟨first, second, sameKind, -⟩ := Edge.keyed?_eq_some_iff.mp keyed
  simp only [KeyedEdge.dependency, Dependency.mk.injEq, Edge.link, Prod.mk.injEq] at *
  constructor
  · rintro ⟨rfl, rfl, rfl⟩
    exact ⟨coherent.key?_injective first sourceKey, coherent.key?_injective second targetKey,
      sameKind⟩
  · rintro ⟨rfl, rfl, rfl⟩
    rw [sourceKey, Option.some.injEq] at first
    rw [targetKey, Option.some.injEq] at second
    exact ⟨first.symm, second.symm, sameKind.symm⟩

/-- A dependency between two keys has an edge exactly if the link between their handles has one.
Handles and keys belong to each other one to one. -/
theorem mem_map_dependency_iff (coherent : ix.Coherent) (sourceKey : ix.key? s = some source)
    (targetKey : ix.key? t = some target) :
    (⟨source, target, kind⟩ : Dependency) ∈ (g.keyedEdges ix).map KeyedEdge.dependency ↔
      (s, t, kind) ∈ g.edges.toList.map Edge.link := by
  rw [keyedEdges_eq, List.mem_map, List.mem_map]
  constructor
  · rintro ⟨k, listed, same⟩
    obtain ⟨e, listed, keyed⟩ := List.mem_filterMap.mp listed
    exact ⟨e, listed, (dependency_eq_iff coherent sourceKey targetKey keyed).mp same⟩
  · rintro ⟨e, listed, linked⟩
    have ends : e.source = s ∧ e.target = t ∧ e.kind = kind := by
      simpa [Edge.link] using linked
    have keyed : e.keyed? ix = some ⟨source, target, kind, e.usage⟩ :=
      Edge.keyed?_eq_some_iff.mpr
        ⟨by rw [ends.1, sourceKey], by rw [ends.2.1, targetKey], ends.2.2, rfl⟩
    exact ⟨_, List.mem_filterMap.mpr ⟨e, listed, keyed⟩, rfl⟩

/-- Counting a dependency in the graph counts it in the tally.  If its edge is there, the entry of
the tally is raised by one; if not, edge and entry come last.  Which of the two happens is the same
question, since keys and handles belong to each other one to one. -/
theorem keyedEdges_connect (sound : g.Sound) (coherent : ix.Coherent) (apart : s ≠ t)
    (sourceKey : ix.key? s = some source) (targetKey : ix.key? t = some target)
    {ds : List Dependency} (counted : g.keyedEdges ix = tally ds) :
    (g.connect s t kind).2.keyedEdges ix = tally (ds ++ [⟨source, target, kind⟩]) := by
  have known_iff : (⟨source, target, kind⟩ : Dependency) ∈ ds ↔
      (s, t, kind) ∈ g.edges.toList.map Edge.link := by
    rw [← mem_map_dependency_iff coherent sourceKey targetKey, counted, mem_map_dependency_tally]
  have edges := edges_connect s t kind sound apart
  by_cases known : (⟨source, target, kind⟩ : Dependency) ∈ ds
  · -- the edge is there: both sides raise one entry, and the question is whether it is the same one
    rw [if_pos (known_iff.mp known)] at edges
    rw [tally_concat_of_mem known, ← counted, keyedEdges_eq, keyedEdges_eq, edges,
      List.filterMap_map, List.map_filterMap]
    refine List.filterMap_congr fun e _ => ?_
    rw [Function.comp_apply]
    cases keyed : e.keyed? ix with
    | none => simpa [Edge.keyed?] using keyed
    | some k =>
        obtain ⟨first, second, sameKind, sameUsage⟩ := Edge.keyed?_eq_some_iff.mp keyed
        rw [Option.map_some, Edge.keyed?_eq_some_iff, Edge.source_bump, Edge.target_bump]
        have same_iff : k.dependency = ⟨source, target, kind⟩ ↔ e.link = (s, t, kind) :=
          dependency_eq_iff coherent sourceKey targetKey keyed
        unfold Edge.bump KeyedEdge.bump
        by_cases same : e.link = (s, t, kind)
        · rw [if_pos same, if_pos (same_iff.mpr same)]
          exact ⟨first, second, sameKind, congrArg (· + 1) sameUsage⟩
        · rw [if_neg same, if_neg fun equal => same (same_iff.mp equal)]
          exact ⟨first, second, sameKind, sameUsage⟩
  · -- a new edge comes last, as its entry does
    rw [if_neg fun linked => known (known_iff.mpr linked)] at edges
    rw [tally_concat_of_not_mem known, ← counted, keyedEdges_eq, keyedEdges_eq, edges,
      List.filterMap_append]
    simp [Edge.keyed?, sourceKey, targetKey]

/-! ## Graphs over a growing index -/

/-- Every vertex is a type or a placeholder of the index. -/
def FoundedOn (g : Graph) (ix : Index) : Prop :=
  ∀ h : Handle, g.contains h = true → ix.IsTypeLevel h

/-- A graph without vertices is founded on every index. -/
theorem FoundedOn.empty (ix : Index) : FoundedOn {} ix := by
  intro h vertex
  simp [contains] at vertex

/-- A graph stays founded while its index grows, because types and placeholders stay what they are.
-/
theorem FoundedOn.grows (founded : g.FoundedOn ix) (grows : ix.Grows ix') : g.FoundedOn ix' :=
  fun h vertex => grows.isTypeLevel (founded h vertex)

/-- The vertices of a founded graph are elements. -/
theorem FoundedOn.knows (founded : g.FoundedOn ix) {h : Handle} (vertex : g.contains h = true) :
    ix.Knows h := by
  obtain ⟨kind, is, -⟩ := founded h vertex
  exact .of_kind? is

/-- The ends of edges are vertices, and these are elements. -/
theorem FoundedOn.anchored (founded : g.FoundedOn ix) (sound : g.Sound) : g.Anchored ix := by
  intro e listed
  obtain ⟨source, target⟩ := sound.ends_known listed
  exact ⟨founded.knows source, founded.knows target⟩

/-- A type or placeholder may become a vertex. -/
theorem FoundedOn.addVertex (founded : g.FoundedOn ix) {h : Handle} (level : ix.IsTypeLevel h) :
    (g.addVertex h).2.FoundedOn ix := by
  intro x vertex
  rw [contains_addVertex, Bool.or_eq_true, beq_iff_eq] at vertex
  rcases vertex with rfl | vertex
  · exact level
  · exact founded x vertex

/-- An edge between vertices adds no vertex that would need an element. -/
theorem FoundedOn.connect (founded : g.FoundedOn ix) {s t : Handle} (source : g.contains s = true)
    (target : g.contains t = true) (kind : EdgeKind) : (g.connect s t kind).2.FoundedOn ix := by
  intro h vertex
  rw [contains_connect s t kind source target] at vertex
  exact founded h vertex

/-- The keys of an edge do not change while the index grows. -/
theorem keyedEdges_grows (anchored : g.Anchored ix) (grows : ix.Grows ix') :
    g.keyedEdges ix' = g.keyedEdges ix := by
  rw [keyedEdges_eq, keyedEdges_eq]
  refine List.filterMap_congr fun e listed => ?_
  obtain ⟨k, keyed⟩ := anchored.exists_keyed? listed
  obtain ⟨source, target, rest⟩ := Edge.keyed?_eq_some_iff.mp keyed
  rw [keyed, Edge.keyed?_eq_some_iff]
  exact ⟨grows.key_kept source, grows.key_kept target, rest⟩

/-- Adding a vertex changes no edge. -/
theorem keyedEdges_addVertex (g : Graph) (h : Handle) (ix : Index) :
    (g.addVertex h).2.keyedEdges ix = g.keyedEdges ix := by
  rw [keyedEdges_eq, keyedEdges_eq, edges_addVertex]

end Graph

end CodeMetrics
