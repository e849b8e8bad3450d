import CodeMetrics.Measure.Coupling
import CodeMetrics.Proofs.Graph.History
import CodeMetrics.Proofs.Index.Checked

/-!
# Dependencies with checked accesses

The graph refers to its nodes and edges by number, and the index to its elements.  As for
registrations, these are the operations with every access checked: an edge between two nodes needs
both of them, an edge that is counted once more has to be there, and the edges at a node are read one
by one.  On a sound model each operation goes through and gives what the operation without checks
gives (`Model.Sound.checkedAddEdge_eq`, `Graph.Sound.checkedDirected_eq`).
-/

namespace CodeMetrics

/-! ## The operations -/

/-- Adds an edge between two nodes, which have to be there, and gives its number. -/
def StoredGraph.checkedAddEdge {α β : Type} (g : StoredGraph α β) (a b : Nat) (carried : β) :
    Option (Nat × StoredGraph α β) :=
  if a < g.vertices.size ∧ b < g.vertices.size then some (g.addEdge a b carried) else none

namespace Graph

/-- The edges of some numbers, each with its number. -/
def checkedNumbered (g : Graph) (numbers : List Nat) : Option (List (Nat × Edge)) :=
  numbers.mapM fun n => do return (n, ← g.edges[n]?)

/-- The edges on one side of a vertex. -/
def checkedDirected (g : Graph) (side : Incidence → List Nat) (h : Handle) : Option (List Edge) :=
  match g.node? h with
  | none => return []
  | some node => do
    let numbered ← g.checkedNumbered (side (← g.incidence[node]?))
    return (numbered.mergeSort fun a b => a.1 ≤ b.1).map Prod.snd

/-- Counts one more use of an edge. -/
def checkedCountUse (g : Graph) (n : Nat) : Option Graph :=
  if n < g.edges.size then some (g.countUse n) else none

/-- Adds the first edge of a link, whose ends become vertices, and gives its number. -/
def checkedAddLink (g : Graph) (source target : Handle) (kind : EdgeKind) :
    Option (Nat × Graph) := do
  let (a, g) := g.addVertex source
  let (b, g) := g.addVertex target
  let (n, store) ← g.checkedAddEdge a b { source, target, kind }
  return (n, { g with
    toStoredGraph := store
    numbers := g.numbers.insert (source, target, kind) n })

/-- Counts a dependency between two handles and gives the number of its edge. -/
def checkedConnect (g : Graph) (source target : Handle) (kind : EdgeKind) :
    Option (Option Nat × Graph) := do
  if source = target then return (none, g)
  else match g.edgeNumber? source target kind with
    | some n => return (some n, ← g.checkedCountUse n)
    | none =>
      let (n, g) ← g.checkedAddLink source target kind
      return (some n, g)

/-- The number of vertices with an edge to `h`. -/
def checkedAfferent (g : Graph) (h : Handle) : Option Nat := do
  return ((← g.checkedDirected Incidence.entering h).map Edge.source).eraseDups.length

/-- The number of vertices with an edge from `h`. -/
def checkedEfferent (g : Graph) (h : Handle) : Option Nat := do
  return ((← g.checkedDirected Incidence.leaving h).map Edge.target).eraseDups.length

end Graph

namespace Model

/-- Registers an element. -/
def checkedRegister (m : Model) (key : String) (kind : Kind) (parent : Option String) :
    Option (Except IndexError Handle × Model) := do
  match ← m.index.checkedRegister key kind parent with
  | .ok (h, index, notes) => return (.ok h, { m with index := index }.note notes)
  | .error e => return (.error e, m)

/-- Makes the element of a key a vertex, registering a placeholder for an unknown key. -/
def checkedResolve (m : Model) (key : String) : Option (Except GraphError Handle × Model) := do
  match ← m.index.checkedFind key with
  | some e =>
    if e.kind.isTypeLevel then return (.ok e.handle, (m.addVertex e.handle).2)
    else return (.error (.notAType key e.kind), m)
  | none =>
    let (h, m) := m.registerExternal key
    return (.ok h, (m.addVertex h).2)

/-- Counts a dependency between two keys and gives the number of its edge. -/
def checkedAddEdge (m : Model) (source target : String) (kind : EdgeKind) :
    Option (Except GraphError (Option Nat) × Model) := do
  if source = target then return (.ok none, m)
  else match ← m.checkedResolve source with
    | (.error e, m) => return (.error e, m)
    | (.ok s, m) =>
      match ← m.checkedResolve target with
      | (.error e, m) => return (.error e, m)
      | (.ok t, m) =>
        let (n, graph) ← m.graph.checkedConnect s t kind
        return (.ok n, { m with graph := graph })

end Model

/-! ## They stay in range -/

namespace Graph

variable {g : Graph} {s t h : Handle}

theorem checkedNumbered_eq {numbers : List Nat} (inside : ∀ n ∈ numbers, n < g.edges.size) :
    g.checkedNumbered numbers = some (g.numbered numbers) := by
  unfold checkedNumbered numbered
  induction numbers with
  | nil => rfl
  | cons n rest ih =>
      obtain ⟨first, others⟩ := List.forall_mem_cons.mp inside
      rw [List.mapM_cons, ih others, List.filterMap_cons, Array.getElem?_eq_getElem first]
      rfl

namespace Sound

/-- The numbers of the edges at a node are in range. -/
theorem lt_of_mem_incident (sound : g.Sound) {node n : Nat}
    (listed : n ∈ g.incident Incidence.leaving node ∨ n ∈ g.incident Incidence.entering node) :
    n < g.edges.size := by
  rw [(sound.leaving_perm node).mem_iff, (sound.entering_perm node).mem_iff] at listed
  rw [← sound.size_arcs, ← Array.length_toList]
  exact listed.elim lt_of_mem_positions lt_of_mem_positions

/-- The edges at a vertex can be read, on either side.  The node of the vertex has lists of incident
edges, and every number in such a list belongs to an edge, because the lists are rearrangements of
the positions of arcs. -/
theorem checkedDirected_eq (sound : g.Sound) {side : Incidence → List Nat}
    (either : side = Incidence.leaving ∨ side = Incidence.entering) (h : Handle) :
    g.checkedDirected side h = some (g.directed side h) := by
  unfold checkedDirected directed
  cases noted : g.node? h with
  | none => rfl
  | some node =>
      have inside : node < g.incidence.size := sound.node_lt noted
      have incident : g.incident side node = side g.incidence[node] := by
        rw [StoredGraph.incident, Array.getElem?_eq_getElem inside]
        rfl
      have numbers : ∀ n ∈ side g.incidence[node], n < g.edges.size := by
        intro n listed
        rw [← incident] at listed
        rcases either with rfl | rfl
        · exact sound.lt_of_mem_incident (.inl listed)
        · exact sound.lt_of_mem_incident (.inr listed)
      dsimp only
      rw [Array.getElem?_eq_getElem inside, Option.bind_eq_bind, Option.bind_some,
        checkedNumbered_eq numbers, incident]
      rfl

theorem checkedAfferent_eq (sound : g.Sound) (h : Handle) :
    g.checkedAfferent h = some (g.afferent h) := by
  rw [checkedAfferent, sound.checkedDirected_eq (.inr rfl)]
  rfl

theorem checkedEfferent_eq (sound : g.Sound) (h : Handle) :
    g.checkedEfferent h = some (g.efferent h) := by
  rw [checkedEfferent, sound.checkedDirected_eq (.inl rfl)]
  rfl

/-- The ends of a new link are nodes by the time its edge is added, so its number can be noted at
both of them. -/
theorem checkedAddLink_eq (sound : g.Sound) (s t : Handle) (kind : EdgeKind) :
    g.checkedAddLink s t kind = some (g.addLink s t kind) := by
  have sound₁ := sound.addVertex s
  have sound₂ := sound₁.addVertex t
  have source : ((g.addVertex s).2.addVertex t).2.node? s = some (g.addVertex s).1 :=
    node?_addVertex_of_known (by rw [node?_addVertex, if_pos rfl]) t
  have target : ((g.addVertex s).2.addVertex t).2.node? t =
      some ((g.addVertex s).2.addVertex t).1 := by rw [node?_addVertex, if_pos rfl]
  unfold checkedAddLink Graph.addLink StoredGraph.checkedAddEdge
  dsimp only
  rw [← sound₂.size_incidence, if_pos ⟨sound₂.node_lt source, sound₂.node_lt target⟩]
  rfl

/-- Counting a dependency stays in range.  The number of an old edge comes from the table of links,
and what stands there belongs to an edge. -/
theorem checkedConnect_eq (sound : g.Sound) (s t : Handle) (kind : EdgeKind) :
    g.checkedConnect s t kind = some (g.connect s t kind) := by
  unfold checkedConnect Graph.connect
  split
  · rfl
  · cases noted : g.edgeNumber? s t kind with
    | none =>
        dsimp only
        rw [sound.checkedAddLink_eq]
        rfl
    | some n =>
        obtain ⟨e, found, -⟩ := Option.map_eq_some_iff.mp (sound.numbers_iff.mp noted)
        have inside : n < g.edges.size := (List.getElem?_eq_some_iff.mp found).1
        dsimp only [checkedCountUse]
        rw [if_pos inside]
        rfl

end Sound

end Graph

namespace Model

variable {m : Model}

theorem checkedRegister_eq (sound : m.index.Sound) (key : String) (kind : Kind)
    (parent : Option String) :
    m.checkedRegister key kind parent = some (m.register key kind parent) := by
  unfold checkedRegister register
  rw [sound.checkedRegister_eq, Index.noted]
  rcases m.index.register key kind parent with e | ⟨h, index⟩ <;> rfl

theorem checkedResolve_eq (coherent : m.index.Coherent) (key : String) :
    m.checkedResolve key = some (m.resolve key) := by
  unfold checkedResolve resolve
  rw [coherent.checkedFind_eq, Option.bind_eq_bind, Option.bind_some]
  cases m.index.find? key with
  | none => rfl
  | some e =>
      dsimp only
      split <;> rfl

theorem Sound.resolve (sound : m.Sound) (key : String) : (m.resolve key).2.Sound := by
  rcases resolve_cases sound.index.toCoherent key with ⟨h, m', found, resolved⟩ | ⟨_, refused, -⟩
  · rw [found]
    exact sound.resolved resolved
  · rw [refused]
    exact sound

/-- **A dependency stays in range** on a sound model, whether it is counted or refused.  Its ends
are resolved one after the other, so the second one is resolved in the model that the first one
leaves, and the edge is counted in the model that both leave. -/
theorem Sound.checkedAddEdge_eq (sound : m.Sound) (source target : String) (kind : EdgeKind) :
    m.checkedAddEdge source target kind = some (m.addEdge source target kind) := by
  unfold checkedAddEdge Model.addEdge
  split
  · rfl
  · have sound₁ := sound.resolve source
    rw [checkedResolve_eq sound.index.toCoherent, Option.bind_eq_bind, Option.bind_some]
    rcases first : m.resolve source with ⟨e | s, m₁⟩
    · rfl
    · rw [first] at sound₁
      have sound₂ := sound₁.resolve target
      dsimp only at sound₂ ⊢
      rw [checkedResolve_eq sound₁.index.toCoherent, Option.bind_some]
      rcases second : m₁.resolve target with ⟨e | t, m₂⟩
      · rfl
      · rw [second] at sound₂
        dsimp only
        rw [sound₂.graph.checkedConnect_eq]
        rfl

end Model

/-! ## Numbers in range -/

namespace Model

/-- Every number that is stored in the index or in the graph is in range. -/
structure InRange (m : Model) : Prop where
  keys : ∀ key h, m.index.handle? key = some h → h.slot < m.index.size
  kinds : ∀ kind, ∀ h ∈ (m.index.handlesOf kind).toList, h.slot < m.index.size
  handles : ∀ e ∈ m.index.elements.toList, e.handle.slot < m.index.size
  owners : ∀ e ∈ m.index.elements.toList, ∀ owner, e.parent = some owner →
    owner.slot < m.index.size
  children : ∀ e ∈ m.index.elements.toList, ∀ child ∈ e.children, child.slot < m.index.size
  vertices : ∀ h ∈ m.graph.vertices.toList, h.slot < m.index.size
  nodes : ∀ h node, m.graph.node? h = some node → node < m.graph.vertices.size
  incidence : m.graph.incidence.size = m.graph.vertices.size
  incident : ∀ node n, n ∈ m.graph.incident Incidence.leaving node ∨
    n ∈ m.graph.incident Incidence.entering node → n < m.graph.edges.size
  arcs : m.graph.arcs.size = m.graph.edges.size
  ends : ∀ arc ∈ m.graph.arcs.toList,
    arc.source < m.graph.vertices.size ∧ arc.target < m.graph.vertices.size
  numbers : ∀ (link : Link) (n : Nat), m.graph.numbers[link]? = some n → n < m.graph.edges.size

/-- In a sound model all stored numbers are in range.  Each of the tables is covered by the
invariant that says what it stands for: keys and kinds by the elements, owners and children by each
other, nodes by the vertices, and links by the edges. -/
theorem Sound.inRange {m : Model} (sound : m.Sound) : m.InRange where
  keys key h found := Index.Knows.of_key? (sound.index.handle?_iff.mp found)
  kinds kind h listed := sound.index.knows_of_mem listed
  handles e listed := Index.Knows.of_get? (sound.index.mem_elements_iff.mp listed)
  owners e listed owner owned := by
    have known := sound.index.mem_elements_iff.mp listed
    rw [← Index.parent?_of_get? known] at owned
    exact sound.index.owner_known owned
  children e listed child owned := by
    have known := sound.index.mem_elements_iff.mp listed
    rw [← Index.childrenOf_of_get? known, sound.index.mem_childrenOf_iff] at owned
    exact Index.Knows.of_parent? owned
  vertices h listed := sound.founded.knows (sound.graph.mem_vertices.mp listed)
  nodes h node noted := (Array.getElem?_eq_some_iff.mp (sound.graph.node?_iff.mp noted)).1
  incidence := sound.graph.size_incidence
  incident node n listed := sound.graph.lt_of_mem_incident listed
  arcs := sound.graph.size_arcs
  ends arc listed := by
    obtain ⟨n, found⟩ := List.mem_iff_getElem?.mp listed
    rw [Array.getElem?_toList] at found
    have inside : n < m.graph.edges.size :=
      sound.graph.size_arcs ▸ (Array.getElem?_eq_some_iff.mp found).1
    obtain ⟨source, target⟩ := sound.graph.joins (Array.getElem?_eq_getElem inside) found
    exact ⟨(Array.getElem?_eq_some_iff.mp (sound.graph.node?_iff.mp source)).1,
      (Array.getElem?_eq_some_iff.mp (sound.graph.node?_iff.mp target)).1⟩
  numbers link n noted := by
    obtain ⟨e, found, -⟩ := Option.map_eq_some_iff.mp (sound.graph.numbers_iff.mp noted)
    exact (List.getElem?_eq_some_iff.mp found).1

end Model

end CodeMetrics
