import CodeMetrics.Proofs.Graph.Queries

/-!
# The export of the edges

The graph knows elements by handle, the export by key.  An edge with an end that has no key is left
out of the export without a word, and edges whose ends had the same key would become one to a reader.
Neither happens while the graph and the index go through their changes together: the ends of an edge
are elements from the moment it is made, no element is taken away, and no key is given twice.

The dependencies of the export are a function of the links of the graph (`Link.dependency?`), which
is one-to-one on elements.  So what holds of the links, that none comes twice and that new ones stand
behind the old ones, holds of the export as well.
-/

namespace CodeMetrics

/-! ## Links and dependencies -/

/-- The dependency that a link stands for. -/
def Link.dependency? (ix : Index) (l : Link) : Option Dependency := do
  let source ← ix.key? l.1
  let target ← ix.key? l.2.1
  return ⟨source, target, l.2.2⟩

theorem Link.dependency?_eq_some_iff {ix : Index} {l : Link} {d : Dependency} :
    l.dependency? ix = some d ↔
      ix.key? l.1 = some d.source ∧ ix.key? l.2.1 = some d.target ∧ l.2.2 = d.kind := by
  obtain ⟨source, target, kind⟩ := d
  unfold dependency?
  cases ix.key? l.1 with
  | none => simp
  | some _ =>
      cases ix.key? l.2.1 with
      | none => simp
      | some _ => simp

/-- Keys tell elements apart, so dependencies tell links apart. -/
theorem Link.eq_of_dependency? {ix : Index} (coherent : ix.Coherent) {l l' : Link} {d : Dependency}
    (first : l.dependency? ix = some d) (second : l'.dependency? ix = some d) : l = l' := by
  obtain ⟨source, target, kind⟩ := dependency?_eq_some_iff.mp first
  obtain ⟨source', target', kind'⟩ := dependency?_eq_some_iff.mp second
  exact Prod.ext (coherent.key?_injective source source')
    (Prod.ext (coherent.key?_injective target target') (kind.trans kind'.symm))

namespace Graph

variable {g g' : Graph} {ix ix' : Index}

/-- The exported dependencies are those of the links, in the order of the edges.  Usages do not
matter for them. -/
theorem map_dependency_keyedEdges (g : Graph) (ix : Index) :
    (g.keyedEdges ix).map KeyedEdge.dependency =
      (g.edges.toList.map Edge.link).filterMap (Link.dependency? ix) := by
  rw [keyedEdges_eq, List.map_filterMap, List.filterMap_map]
  refine List.filterMap_congr fun e _ => ?_
  show (e.keyed? ix).map KeyedEdge.dependency = Link.dependency? ix e.link
  unfold Edge.keyed? Link.dependency? Edge.link
  cases ix.key? e.source with
  | none => rfl
  | some _ =>
      cases ix.key? e.target with
      | none => rfl
      | some _ => rfl

/-- No two exported edges stand for the same dependency. -/
theorem Sound.nodup_dependencies (sound : g.Sound) (coherent : ix.Coherent) :
    ((g.keyedEdges ix).map KeyedEdge.dependency).Nodup := by
  rw [map_dependency_keyedEdges]
  refine List.Nodup.filterMap ?_ sound.nodup_links
  intro l l' d first second
  exact Link.eq_of_dependency? coherent first second

/-- The export of a grown graph begins as before. -/
theorem Grown.dependencies (grown : g.Grown g') (anchored : g.Anchored ix)
    (grows : ix.Grows ix') :
    (g.keyedEdges ix).map KeyedEdge.dependency <+:
      (g'.keyedEdges ix').map KeyedEdge.dependency := by
  rw [← keyedEdges_grows anchored grows, map_dependency_keyedEdges, map_dependency_keyedEdges]
  exact grown.links.filterMap _

/-! ## Edges between elements -/

namespace Anchored

theorem empty (ix : Index) : Anchored {} ix := by
  intro e listed
  cases listed

/-- Elements stay while the index grows, and other changes than dependencies keep the edges. -/
theorem grows (anchored : g.Anchored ix) (grows : ix.Grows ix') (edges : g'.edges = g.edges) :
    g'.Anchored ix' := by
  intro e listed
  rw [edges] at listed
  obtain ⟨source, target⟩ := anchored e listed
  exact ⟨grows.knows source, grows.knows target⟩

/-- A dependency between known elements keeps the edges anchored, whether its edge is new or counted
once more. -/
theorem connect (anchored : g.Anchored ix) (sound : g.Sound) {s t : Handle} (apart : s ≠ t)
    (source : ix.Knows s) (target : ix.Knows t) (kind : EdgeKind) :
    (g.connect s t kind).2.Anchored ix := by
  intro e listed
  rw [edges_connect s t kind sound apart] at listed
  split at listed
  · obtain ⟨before, old, rfl⟩ := List.mem_map.mp listed
    rw [Edge.source_bump, Edge.target_bump]
    exact anchored before old
  · rcases List.mem_append.mp listed with old | new
    · exact anchored e old
    · rw [List.mem_singleton.mp new]
      exact ⟨source, target⟩

/-- The entry at a place of the export resolves to the edge at this place of the graph. -/
theorem resolves (anchored : g.Anchored ix) (coherent : ix.Coherent) {i : Nat} {e : Edge}
    {k : KeyedEdge} (edge : g.edges[i]? = some e) (entry : (g.keyedEdges ix)[i]? = some k) :
    ix.handle? k.source = some e.source ∧ ix.handle? k.target = some e.target ∧
      k.kind = e.kind ∧ k.usage = e.usage := by
  have same := congrArg (·[i]?) anchored.map_keyed?
  simp only [List.getElem?_map, Array.getElem?_toList, edge, entry, Option.map_some,
    Option.some.injEq] at same
  obtain ⟨source, target, kind, usage⟩ := Edge.keyed?_eq_some_iff.mp same
  exact ⟨coherent.handle?_iff.mpr source, coherent.handle?_iff.mpr target, kind.symm, usage.symm⟩

end Anchored

end Graph

namespace Model

open CodeMetrics.Graph

variable {m : Model}

/-! ## Histories -/

/-- The ends of a new edge are elements that were just found or made, and all other edges have the
ends that they had. -/
theorem anchored_addEdge (index : m.index.Sound) (sound : m.graph.Sound)
    (anchored : m.graph.Anchored m.index) (source target : String) (kind : EdgeKind) :
    (m.addEdge source target kind).2.graph.Anchored (m.addEdge source target kind).2.index := by
  have links := addEdge_links index source target kind
  generalize m.addEdge source target kind = result at links ⊢
  cases links with
  | self _ => exact anchored
  | sourceRefused _ _ => exact anchored
  | targetRefused _ first _ => exact anchored.grows first.grows first.edges_eq
  | @counted s t m₁ m₂ _ apart first second _ =>
      have anchored₂ : m₂.graph.Anchored m₂.index :=
        (anchored.grows first.grows first.edges_eq).grows second.grows second.edges_eq
      have sound₂ : m₂.graph.Sound := (second.grown (first.grown sound).sound).sound
      exact anchored₂.connect sound₂ (first.ends_apart apart second)
        (.of_key? (second.grows.key_kept first.placed.key?)) (.of_key? second.placed.key?) kind

theorem anchored_apply (index : m.index.Sound) (sound : m.graph.Sound)
    (anchored : m.graph.Anchored m.index) {change : Change} (kept : change ≠ .clearIndex) :
    (m.apply change).2.graph.Anchored (m.apply change).2.index := by
  have grows : m.index.Grows (m.apply change).2.index := .of_moves (m.apply_moves index kept)
  cases change with
  | addEdge source target kind => exact anchored_addEdge index sound anchored source target kind
  | _ => exact anchored.grows grows (m.edges_apply (by simp))

theorem anchored_applyAll (index : m.index.Sound) (sound : m.graph.Sound)
    (anchored : m.graph.Anchored m.index) {changes : List Change}
    (kept : ∀ change ∈ changes, change ≠ .clearIndex) :
    (m.applyAll changes).graph.Anchored (m.applyAll changes).index := by
  induction changes generalizing m with
  | nil => exact anchored
  | cons change rest ih =>
      have first := anchored_apply index sound anchored (kept change List.mem_cons_self)
      exact ih (m.apply_sound index change) (grown_apply index sound change).sound first
        fun c listed => kept c (List.mem_cons_of_mem _ listed)

/-- **The export of the edges loses nothing**, whatever changes the index and the graph go through
together, refused or not, as long as the elements are not forgotten.  There is an entry for every
edge, at the same place; its keys lead back to the ends of the edge, and it has the same kind and
usage.  No two entries have the same source, target and kind.  The entries are in the order of
insertion: later changes leave them where they are and add new ones at the end. -/
theorem export_loses_nothing (changes : List Change)
    (kept : ∀ change ∈ changes, change ≠ .clearIndex) :
    let m := ({} : Model).applyAll changes
    let exported := m.graph.keyedEdges m.index
    exported.length = m.graph.edges.size ∧
      (∀ (i : Nat) (e : Edge) (k : KeyedEdge),
        m.graph.edges[i]? = some e → exported[i]? = some k →
          m.index.handle? k.source = some e.source ∧ m.index.handle? k.target = some e.target ∧
            k.kind = e.kind ∧ k.usage = e.usage) ∧
      (exported.map KeyedEdge.dependency).Nodup ∧
      ∀ more : List Change, (∀ change ∈ more, change ≠ .clearIndex) →
        let later := ({} : Model).applyAll (changes ++ more)
        exported.map KeyedEdge.dependency <+:
          (later.graph.keyedEdges later.index).map KeyedEdge.dependency := by
  intro m exported
  have index : m.index.Sound := ({} : Model).applyAll_sound .empty changes
  have sound : m.graph.Sound := (grown_applyAll .empty .empty changes).sound
  have anchored : m.graph.Anchored m.index :=
    anchored_applyAll .empty .empty (.empty _) kept
  refine ⟨?_, fun i e k edge entry => anchored.resolves index.toCoherent edge entry,
    sound.nodup_dependencies index.toCoherent, fun more keptToo => ?_⟩
  · have same := congrArg List.length anchored.map_keyed?
    simpa using same.symm
  · rw [applyAll_append]
    exact (grown_applyAll index sound more).dependencies anchored
      (.of_moves (applyAll_moves index keptToo))

-- Elements that are forgotten take the entries of their edges with them.
example :
    let m := ({} : Model).applyAll [.addEdge "A" "B" .call, .clearIndex]
    m.graph.edges.size = 1 ∧ m.graph.keyedEdges m.index = [] := by decide +kernel

/-- A call that is found twice, once before and once after its source became a type, a refused one on
a package, an extension the other way, and a vertex that is no element. -/
def callsBetween : List Change :=
  [.register "p" .package none, .addEdge "p/A" "q/B" .call, .addEdge "q/C" "p" .call,
    .register "p/A" .type (some "p"), .addVertex ⟨9⟩, .addTypes, .addEdge "q/B" "p/A" .extension,
    .addEdge "p/A" "q/B" .call]

theorem export_loses_nothing_callsBetween :
    (∀ change ∈ callsBetween, change ≠ .clearIndex) ∧
      ∃ m : Model, ({} : Model).applyAll callsBetween = m ∧
        m.graph.keyedEdges m.index = [⟨"p/A", "q/B", .call, 2⟩, ⟨"q/B", "p/A", .extension, 1⟩] ∧
        m.graph.edges.size = 2 ∧ m.index.handle? "q/B" = some ⟨2⟩ := by
  have kept : ∀ change ∈ callsBetween, change ≠ .clearIndex := by simp [callsBetween]
  obtain ⟨complete, resolves, -⟩ := export_loses_nothing callsBetween kept
  have entries : (({} : Model).applyAll callsBetween).graph.keyedEdges
      (({} : Model).applyAll callsBetween).index =
        [⟨"p/A", "q/B", .call, 2⟩, ⟨"q/B", "p/A", .extension, 1⟩] := by decide +kernel
  have edge : (({} : Model).applyAll callsBetween).graph.edges[0]? =
      some ⟨⟨1⟩, ⟨2⟩, .call, 2⟩ := by decide +kernel
  generalize ({} : Model).applyAll callsBetween = m at *
  rw [entries] at complete
  have called := resolves 0 _ ⟨"p/A", "q/B", .call, 2⟩ edge (by rw [entries]; rfl)
  exact ⟨kept, m, rfl, entries, complete.symm, called.2.1⟩

end Model

end CodeMetrics
