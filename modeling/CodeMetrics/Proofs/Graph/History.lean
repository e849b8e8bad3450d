import CodeMetrics.Proofs.Graph.Tally
import CodeMetrics.Proofs.Index.History

/-!
# The model after any history

The graph holds handles of an index that goes on changing.  Whatever changes a model goes through,
in any order, refused or not, its vertices are the handles of types and placeholders of the index as
it is **now**: no change takes an element away, and none makes anything else of a type.

`Model.Sound` is the invariant, and `Model.Links` says what one dependency does to the model: it is
the only change that makes vertices for itself, and it does so even where it is refused.  The usage
of an edge is read off the answers: `Model.Counts` says that it is the number of answers with the
number of the edge.

Two changes are left out, because they are no use of the model: a vertex for a handle that is not a
type, and an index that is thrown away under its graph.
-/

namespace CodeMetrics

namespace Graph

/-! ## Loops -/

/-- No edge leads from a vertex to itself. -/
def Loopless (g : Graph) : Prop := ∀ e ∈ g.edges.toList, e.source ≠ e.target

/-- A dependency between two different elements adds no loop to a graph without loops, whether it is
a new edge or one more use of an old one. -/
theorem Loopless.connect {g : Graph} (loopless : g.Loopless) (sound : g.Sound) {s t : Handle}
    (apart : s ≠ t) (kind : EdgeKind) : (g.connect s t kind).2.Loopless := by
  intro e listed
  rw [edges_connect s t kind sound apart] at listed
  split at listed
  · obtain ⟨before, old, rfl⟩ := List.mem_map.mp listed
    rw [Edge.source_bump, Edge.target_bump]
    exact loopless before old
  · rcases List.mem_append.mp listed with old | new
    · exact loopless e old
    · rw [List.mem_singleton.mp new]
      exact apart

end Graph

namespace Model

variable {m m' : Model} {key source target : String} {kind : EdgeKind} {h : Handle}

/-! ## The ends of a dependency -/

/-- The element of a key, known before or made a placeholder now, is a vertex. -/
structure Resolved (m : Model) (key : String) (h : Handle) (m' : Model) : Prop where
  placed : m.index.Placed key .external h m'.index
  graph : m'.graph = (m.graph.addVertex h).2

/-- The element of a key is something that has no dependencies. -/
structure Unfit (m : Model) (key : String) (kind : Kind) : Prop where
  known : ∃ h, m.index.key? h = some key ∧ m.index.kind? h = some kind
  low : kind.isTypeLevel = false

/-- An end of a dependency is a type or a placeholder, or becomes a placeholder if its key is
unknown.  Anything else is refused, and then the model stays as it is. -/
theorem resolve_cases (coherent : m.index.Coherent) (key : String) :
    (∃ h m', m.resolve key = (.ok h, m') ∧ m.Resolved key h m') ∨
      ∃ kind, m.resolve key = (.error (.notAType key kind), m) ∧ m.Unfit key kind := by
  unfold resolve
  cases found : m.index.find? key with
  | none =>
      have fresh := coherent.find?_eq_none_iff.mp found
      have made : m.index.registerExternal key = m.index.insert key .external := by
        unfold Index.registerExternal
        rw [fresh]
      refine .inl ⟨⟨m.index.size⟩, _, by simp only [registerExternal, made]; rfl, ?_, rfl⟩
      exact .inserted fresh
  | some e =>
      obtain ⟨known, named⟩ := coherent.find?_eq_some_iff.mp found
      have named : m.index.key? e.handle = some key := by rw [Index.key?_of_get? known, named]
      have is := Index.kind?_of_get? known
      by_cases level : e.kind.isTypeLevel = true
      · refine .inl ⟨e.handle, (m.addVertex e.handle).2, by simp [level], ?_, rfl⟩
        refine .kept named is ?_
        cases kind : e.kind with
        | type => exact .inr ⟨rfl, rfl⟩
        | external => exact .inl rfl
        | _ => rw [kind] at level; cases level
      · have low : e.kind.isTypeLevel = false := by simpa using level
        exact .inr ⟨e.kind, by simp [low], ⟨e.handle, named, is⟩, low⟩

namespace Resolved

/-- What a key is resolved to is a type or a placeholder. -/
theorem isTypeLevel (resolved : m.Resolved key h m') : m'.index.IsTypeLevel h := by
  rcases resolved.placed.kind? with is | ⟨is, -⟩
  · exact ⟨_, is, rfl⟩
  · exact ⟨_, is, rfl⟩

/-- Resolving the end of a dependency may make a placeholder, and does nothing else to the index. -/
theorem grows (resolved : m.Resolved key h m') : m.index.Grows m'.index :=
  .of_moves resolved.placed.moves

/-- Resolving the end of a dependency adds a vertex at most.  The edges are those of before. -/
theorem edges_eq (resolved : m.Resolved key h m') : m'.graph.edges = m.graph.edges := by
  rw [resolved.graph, Graph.edges_addVertex]

/-- Different keys have different ends. -/
theorem ends_apart {s t : Handle} {m₁ m₂ : Model} (apart : source ≠ target)
    (first : m.Resolved source s m₁) (second : m₁.Resolved target t m₂) : s ≠ t := by
  rintro rfl
  have sourceNamed : m₂.index.key? s = some source := second.grows.key_kept first.placed.key?
  rw [second.placed.key?, Option.some.injEq] at sourceNamed
  exact apart sourceNamed.symm

/-- The ends of a dependency are vertices once both are resolved. -/
theorem ends_vertices {s t : Handle} {m₁ m₂ : Model} (first : m.Resolved source s m₁)
    (second : m₁.Resolved target t m₂) :
    m₂.graph.contains s = true ∧ m₂.graph.contains t = true := by
  rw [second.graph, Graph.contains_addVertex, Graph.contains_addVertex, first.graph,
    Graph.contains_addVertex]
  simp

end Resolved

/-- What becomes of a dependency between two keys.  A refused target leaves the source behind.  The
ends of one that is counted are different vertices, so that it is answered with a number. -/
inductive Links (m : Model) (source target : String) (kind : EdgeKind) :
    Except GraphError (Option Nat) × Model → Prop where
  | self (same : source = target) : Links m source target kind (.ok none, m)
  | sourceRefused {sourceKind : Kind} (apart : source ≠ target)
      (unfit : m.Unfit source sourceKind) :
      Links m source target kind (.error (.notAType source sourceKind), m)
  | targetRefused {s : Handle} {m₁ : Model} {targetKind : Kind} (apart : source ≠ target)
      (first : m.Resolved source s m₁) (unfit : m₁.Unfit target targetKind) :
      Links m source target kind (.error (.notAType target targetKind), m₁)
  | counted {s t : Handle} {m₁ m₂ : Model} {n : Nat} (apart : source ≠ target)
      (first : m.Resolved source s m₁) (second : m₁.Resolved target t m₂)
      (number : (m₂.graph.connect s t kind).1 = some n) :
      Links m source target kind
        (.ok (some n), { m₂ with graph := (m₂.graph.connect s t kind).2 })

/-- A dependency between two keys has one of four ends: it is a loop and ignored, one of its ends is
refused, or it is counted. -/
theorem addEdge_links (sound : m.index.Sound) (source target : String) (kind : EdgeKind) :
    m.Links source target kind (m.addEdge source target kind) := by
  unfold addEdge
  by_cases same : source = target
  · rw [if_pos same]
    exact .self same
  · rw [if_neg same]
    rcases resolve_cases sound.toCoherent source with
      ⟨s, m₁, found, first⟩ | ⟨sourceKind, refused, unfit⟩
    · have sound₁ : m₁.index.Sound := sound.moves first.placed.moves
      rw [found]
      rcases resolve_cases sound₁.toCoherent target with
        ⟨t, m₂, found, second⟩ | ⟨targetKind, refused, unfit⟩
      · obtain ⟨n, number⟩ := m₂.graph.exists_connect_number s t kind (first.ends_apart same second)
        simp only [found, number]
        exact .counted same first second number
      · simp only [refused]
        exact .targetRefused same first unfit
    · rw [refused]
      exact .sourceRefused same unfit

/-! ## Sound models -/

/-- The index and the graph are sound, and the graph joins different types of the index. -/
structure Sound (m : Model) : Prop where
  index : m.index.Sound
  graph : m.graph.Sound
  founded : m.graph.FoundedOn m.index
  loopless : m.graph.Loopless

namespace Sound

/-- A model without elements is sound, and its graph has no vertices that would need any. -/
theorem empty : Sound {} where
  index := .empty
  graph := .empty
  founded := .empty _
  loopless := by
    intro e listed
    cases listed

/-- Only the index has changed. -/
theorem moves (sound : m.Sound) (moves : m.index.Moves m'.index) (graph : m'.graph = m.graph) :
    m'.Sound where
  index := sound.index.moves moves
  graph := graph ▸ sound.graph
  founded := graph ▸ sound.founded.grows (.of_moves moves)
  loopless := graph ▸ sound.loopless

/-- A type or a placeholder has become a vertex. -/
theorem vertex (sound : m.Sound) (level : m.index.IsTypeLevel h) (index : m'.index = m.index)
    (graph : m'.graph = (m.graph.addVertex h).2) : m'.Sound where
  index := index ▸ sound.index
  graph := graph ▸ sound.graph.addVertex h
  founded := by
    rw [graph, index]
    exact sound.founded.addVertex level
  loopless := by
    rw [graph, Graph.Loopless, Graph.edges_addVertex]
    exact sound.loopless

/-- Resolving a key keeps a model sound: the vertex that is added belongs to a type or placeholder.
-/
theorem resolved (sound : m.Sound) (resolved : m.Resolved key h m') : m'.Sound := by
  have placed : ({ m with index := m'.index } : Model).Sound :=
    sound.moves resolved.placed.moves rfl
  exact placed.vertex resolved.isTypeLevel rfl resolved.graph

/-- An edge between two vertices. -/
theorem connected (sound : m.Sound) {s t : Handle} (apart : s ≠ t)
    (source : m.graph.contains s = true) (target : m.graph.contains t = true) (kind : EdgeKind) :
    ({ m with graph := (m.graph.connect s t kind).2 } : Model).Sound where
  index := sound.index
  graph := sound.graph.connect s t kind
  founded := sound.founded.connect source target kind
  loopless := sound.loopless.connect sound.graph apart kind

/-- Counting a dependency keeps a model sound, also where one of its ends is refused after the other
one was resolved. -/
theorem addEdge (sound : m.Sound) (source target : String) (kind : EdgeKind) :
    (m.addEdge source target kind).2.Sound := by
  have links := addEdge_links sound.index source target kind
  generalize m.addEdge source target kind = result at links ⊢
  cases links with
  | self _ => exact sound
  | sourceRefused _ _ => exact sound
  | targetRefused _ first _ => exact sound.resolved first
  | counted apart first second _ =>
      have sound₂ := (sound.resolved first).resolved second
      obtain ⟨vertex, vertex'⟩ := first.ends_vertices second
      exact sound₂.connected (first.ends_apart apart second) vertex vertex' kind

/-- Making all types and placeholders vertices keeps a model sound.  The loop is over the elements
at its start, and it changes no element, so each vertex that it adds is founded. -/
theorem addTypes (sound : m.Sound) : m.addTypes.Sound := by
  -- the loop adds one type after the other, and the index stays what it is
  suffices loop : ∀ (l : List Element) (n : Model), n.Sound → n.index = m.index →
      (∀ e ∈ l, m.index.IsTypeLevel e.handle) →
      ({ n with graph := l.foldl (fun g e => (g.addVertex e.handle).2) n.graph } : Model).Sound by
    refine loop m.index.typeLevel m sound rfl fun e listed => ?_
    obtain ⟨found, level⟩ := sound.index.mem_search_iff.mp listed
    exact ⟨e.kind, Index.kind?_of_get? found, level⟩
  intro l
  induction l with
  | nil =>
      intro n sound _ _
      exact sound
  | cons e rest ih =>
      intro n sound same levels
      have level : n.index.IsTypeLevel e.handle := by
        rw [same]
        exact levels e List.mem_cons_self
      have first : ({ n with graph := (n.graph.addVertex e.handle).2 } : Model).Sound :=
        sound.vertex level rfl rfl
      exact ih _ first same fun e' listed => levels e' (List.mem_cons_of_mem e listed)

end Sound

/-! ## Histories -/

/-- Whether a change may be made: a vertex is for a type or a placeholder, and the index stays. -/
def Change.allowedIn (m : Model) : Change → Bool
  | .addVertex h => (m.index.get? h).any (·.kind.isTypeLevel)
  | .clearIndex => false
  | _ => true

/-- Whether changes may be made one after the other. -/
def allows (m : Model) : List Change → Bool
  | [] => true
  | change :: rest => change.allowedIn m && (m.apply change).2.allows rest

/-- The answers to changes that are carried out one after the other. -/
def outcomes (m : Model) : List Change → List Outcome
  | [] => []
  | change :: rest => (m.apply change).1 :: (m.apply change).2.outcomes rest

/-- Whether a change can concern the graph. -/
def Change.concernsGraph : Change → Bool
  | .addEdge _ _ _ | .addVertex _ | .addTypes => true
  | _ => false

/-- A change that does not concern the graph leaves it as it is, whatever its outcome is. -/
theorem graph_apply (m : Model) {change : Change} (aside : change.concernsGraph = false) :
    (m.apply change).2.graph = m.graph := by
  cases change with
  | register key kind parent =>
      simp only [apply, register]
      split <;> rfl
  | attach key name value =>
      simp only [apply, attach]
      split <;> rfl
  | attachTo h name value =>
      simp only [apply, attachTo]
      split <;> rfl
  | registerExternal key => rfl
  | clearIndex => rfl
  | addEdge source target kind => cases aside
  | addVertex h => cases aside
  | addTypes => cases aside

/-- Only a dependency concerns the edges. -/
theorem edges_apply (m : Model) {change : Change}
    (other : ∀ source target kind, change ≠ .addEdge source target kind) :
    (m.apply change).2.graph.edges = m.graph.edges := by
  cases change with
  | addEdge source target kind => exact absurd rfl (other source target kind)
  | addVertex h => exact Graph.edges_addVertex m.graph h
  | addTypes => exact Graph.edges_addTypes m.graph m.index
  | _ => rw [m.graph_apply rfl]

/-- An allowed change keeps a model sound, whatever its outcome is.  Not allowed are a vertex for
what is neither type nor placeholder, and clearing the index, whose handles the graph holds. -/
theorem Sound.apply (sound : m.Sound) {change : Change} (allowed : change.allowedIn m = true) :
    (m.apply change).2.Sound := by
  cases change with
  | register key kind parent =>
      exact sound.moves (m.register_moves sound.index key kind parent) (m.graph_apply rfl)
  | registerExternal key => exact sound.moves (m.registerExternal_moves key) (m.graph_apply rfl)
  | attach key name value => exact sound.moves (m.attach_moves key name value) (m.graph_apply rfl)
  | attachTo h name value => exact sound.moves (m.attachTo_moves h name value) (m.graph_apply rfl)
  | addEdge source target kind => exact sound.addEdge source target kind
  | addVertex h =>
      obtain ⟨e, found, level⟩ := Option.any_eq_true _ _ |>.mp allowed
      exact sound.vertex ⟨e.kind, Index.kind?_of_get? found, level⟩ rfl rfl
  | addTypes => exact sound.addTypes
  | clearIndex => cases allowed

/-- An allowed change is a chain of elementary changes of the index. -/
theorem Sound.apply_moves (sound : m.Sound) {change : Change}
    (allowed : change.allowedIn m = true) : m.index.Moves (m.apply change).2.index := by
  refine m.apply_moves sound.index ?_
  rintro rfl
  cases allowed

/-- A history of allowed changes is a chain of elementary changes of the index. -/
theorem Sound.applyAll_moves (sound : m.Sound) {changes : List Change}
    (allowed : m.allows changes = true) : m.index.Moves (m.applyAll changes).index := by
  induction changes generalizing m with
  | nil => exact .refl
  | cons change rest ih =>
      obtain ⟨first, others⟩ := Bool.and_eq_true_iff.mp allowed
      exact (sound.apply_moves first).trans (ih (sound.apply first) others)

/-- **A history of allowed changes keeps a model sound.**  Each change is allowed in the model that
the ones before have led to. -/
theorem Sound.applyAll (sound : m.Sound) {changes : List Change}
    (allowed : m.allows changes = true) : (m.applyAll changes).Sound := by
  induction changes generalizing m with
  | nil => exact sound
  | cons change rest ih =>
      obtain ⟨first, others⟩ := Bool.and_eq_true_iff.mp allowed
      exact ih (sound.apply first) others

/-! ## Usages -/

/-- The edges are numbered by the answers, and the usage of an edge is the number of answers that
name it. -/
structure Counts (m : Model) (answers : List Outcome) : Prop where
  named_iff : ∀ n : Nat, 0 < answers.count (.edge (some n)) ↔ n < m.graph.edges.size
  usage_eq : ∀ {n : Nat} {e : Edge}, m.graph.edges[n]? = some e →
    e.usage = UInt32.ofNat (answers.count (.edge (some n)))

namespace Counts

variable {answers : List Outcome}

/-- Before the first change there are no answers and no uses. -/
theorem empty : Counts {} [] where
  named_iff n := by simp
  usage_eq found := by simp at found

/-- An answer that names no edge belongs to a change that leaves the edges alone. -/
theorem unnamed (counts : m.Counts answers) {answer : Outcome}
    (other : ∀ n, answer ≠ .edge (some n)) (edges : m'.graph.edges = m.graph.edges) :
    m'.Counts (answers ++ [answer]) := by
  have same (n : Nat) : (answers ++ [answer]).count (.edge (some n)) =
      answers.count (.edge (some n)) := by
    rw [List.count_append, List.count_singleton, if_neg, Nat.add_zero]
    simpa using other n
  refine ⟨fun n => ?_, fun {n e} found => ?_⟩
  · rw [same, edges]
    exact counts.named_iff n
  · rw [same]
    rw [edges] at found
    exact counts.usage_eq found

/-- A dependency that is counted is answered with the number of its edge.  A new edge has the next
number, which no earlier answer has named, and is used once; an old edge is used once more, and
named once more. -/
theorem named (counts : m.Counts answers) {g : Graph} (sound : g.Sound)
    (before : g.edges = m.graph.edges) {s t : Handle} (apart : s ≠ t) {kind : EdgeKind} {k : Nat}
    (number : (g.connect s t kind).1 = some k) (after : m'.graph = (g.connect s t kind).2) :
    m'.Counts (answers ++ [.edge (some k)]) := by
  have count (n : Nat) : (answers ++ [Outcome.edge (some k)]).count (.edge (some n)) =
      answers.count (.edge (some n)) + if k = n then 1 else 0 := by
    rw [List.count_append, List.count_singleton]
    simp
  obtain ⟨n, same, connected⟩ := Graph.connect_cases s t kind sound apart
  obtain rfl : k = n := Option.some.inj (number.symm.trans same)
  rw [← after, before] at connected
  rcases connected with ⟨⟨e, found, -⟩, edges⟩ | ⟨next, edges⟩
  · have inside : k < m.graph.edges.size := (Array.getElem?_eq_some_iff.mp found).1
    refine ⟨fun n => ?_, fun {n e} found => ?_⟩
    · have named := counts.named_iff n
      rw [count, edges, Array.size_modify]
      split
      · next same => subst same; omega
      · omega
    · rw [edges, Array.getElem?_modify] at found
      rw [count]
      split
      · next same =>
          rw [if_pos same] at found
          obtain ⟨old, before, rfl⟩ := Option.map_eq_some_iff.mp found
          show old.usage + 1 = _
          rw [counts.usage_eq before, UInt32.ofNat_add]
          rfl
      · next other =>
          rw [if_neg other] at found
          exact counts.usage_eq found
  · refine ⟨fun n => ?_, fun {n e} found => ?_⟩
    · have named := counts.named_iff n
      rw [count, edges, Array.size_push]
      split
      · next same => omega
      · omega
    · rw [edges, Array.getElem?_push] at found
      rw [count, next]
      split at found
      · next same =>
          -- the edge is new, and no earlier answer has its number
          cases found
          have unnamed : answers.count (.edge (some n)) = 0 := by
            have named := counts.named_iff n
            omega
          rw [unnamed, if_pos same.symm]
          rfl
      · next other =>
          rw [if_neg (Ne.symm other)]
          exact counts.usage_eq found

/-- The usage of an edge is the number of answers with its place, also after one more dependency: it
names the place of its edge, or none. -/
theorem addEdge (counts : m.Counts answers) (sound : m.Sound) (source target : String)
    (kind : EdgeKind) :
    (m.addEdge source target kind).2.Counts
      (answers ++ [.ofEdge (m.addEdge source target kind).1]) := by
  have links := addEdge_links sound.index source target kind
  generalize m.addEdge source target kind = result at links ⊢
  cases links with
  | self _ => exact counts.unnamed (by simp [Outcome.ofEdge]) rfl
  | sourceRefused _ _ => exact counts.unnamed (by simp [Outcome.ofEdge]) rfl
  | targetRefused _ first _ => exact counts.unnamed (by simp [Outcome.ofEdge]) first.edges_eq
  | counted apart first second number =>
      have sound₂ := (sound.resolved first).resolved second
      exact counts.named sound₂.graph (second.edges_eq.trans first.edges_eq)
        (first.ends_apart apart second) number rfl

/-- Each change keeps the count.  Only dependencies have answers that name an edge. -/
theorem apply (counts : m.Counts answers) (sound : m.Sound) (change : Change) :
    (m.apply change).2.Counts (answers ++ [(m.apply change).1]) := by
  cases change with
  | addEdge source target kind => exact counts.addEdge sound source target kind
  | register key kind parent =>
      refine counts.unnamed (fun n => ?_) (m.edges_apply (by simp))
      simp only [Model.apply, Outcome.ofRegistration]
      split <;> simp
  | attach key name value =>
      refine counts.unnamed (fun n => ?_) (m.edges_apply (by simp))
      simp only [Model.apply, Outcome.ofAttachment]
      split <;> simp
  | attachTo h name value =>
      refine counts.unnamed (fun n => ?_) (m.edges_apply (by simp))
      simp only [Model.apply, Outcome.ofAttachment]
      split <;> simp
  | _ => exact counts.unnamed (by simp [Model.apply]) (m.edges_apply (by simp))

/-- After a history the usage of each edge is the number of answers that named it, up to the size of
the counter. -/
theorem applyAll (counts : m.Counts answers) (sound : m.Sound) {changes : List Change}
    (allowed : m.allows changes = true) :
    (m.applyAll changes).Counts (answers ++ m.outcomes changes) := by
  induction changes generalizing m answers with
  | nil =>
      rw [outcomes, List.append_nil]
      exact counts
  | cons change rest ih =>
      obtain ⟨first, others⟩ := Bool.and_eq_true_iff.mp allowed
      have later := ih (counts.apply sound change) (sound.apply first) others
      rw [List.append_assoc] at later
      exact later

end Counts

/-! ## Graphs after any history -/

/-- Whatever a model goes through, the vertices are the handles of types and placeholders of its
index, and every edge joins two different ones, is the only one of its kind there, and was counted
as often as it was answered. -/
theorem graph_stays_coherent (changes : List Change)
    (allowed : ({} : Model).allows changes = true) :
    let m := ({} : Model).applyAll changes
    let answers := ({} : Model).outcomes changes
    m.graph.vertices.toList.Nodup ∧
      (∀ h ∈ m.graph.vertices.toList, ∃ e, m.index.get? h = some e ∧
        (e.kind = .type ∨ e.kind = .external)) ∧
      (∀ h, m.graph.contains h = true ↔ h ∈ m.graph.vertices.toList) ∧
      (∀ n e, m.graph.edges[n]? = some e →
        e.source ≠ e.target ∧ e.source ∈ m.graph.vertices.toList ∧
          e.target ∈ m.graph.vertices.toList ∧
          (answers.count (.edge (some n)) < UInt32.size →
            e.usage.toNat = answers.count (.edge (some n)) ∧ 1 ≤ e.usage.toNat)) ∧
      (m.graph.edges.toList.map fun e => (e.source, e.target, e.kind)).Nodup := by
  intro m answers
  have sound : m.Sound := Sound.empty.applyAll allowed
  have counts : m.Counts answers := by
    simpa using Counts.empty.applyAll Sound.empty allowed
  refine ⟨sound.graph.nodup_vertices, fun h listed => ?_, fun h => sound.graph.mem_vertices.symm,
    fun n e found => ?_, sound.graph.nodup_links⟩
  · obtain ⟨kind, is, level⟩ := sound.founded h (sound.graph.mem_vertices.mp listed)
    obtain ⟨e, found, rfl⟩ := Option.map_eq_some_iff.mp is
    exact ⟨e, found, Kind.isTypeLevel_iff.mp level⟩
  · have listed : e ∈ m.graph.edges.toList := by
      rw [← Array.getElem?_toList] at found
      exact List.mem_of_getElem? found
    obtain ⟨source, target⟩ := sound.graph.ends_known listed
    refine ⟨sound.loopless e listed, sound.graph.mem_vertices.mpr source,
      sound.graph.mem_vertices.mpr target, fun few => ?_⟩
    have inside : n < m.graph.edges.size := (Array.getElem?_eq_some_iff.mp found).1
    have usage : e.usage.toNat = answers.count (.edge (some n)) := by
      rw [counts.usage_eq found]
      exact UInt32.toNat_ofNat_of_lt' few
    rw [usage]
    exact ⟨rfl, (counts.named_iff n).mpr inside⟩

/-- A placeholder that becomes a type, a dependency that is found twice, one of a type on itself and
one on a package. -/
theorem graph_stays_coherent_promoted :
    let changes : List Change := [.register "p" .package none, .addEdge "p.A" "p.B" .call,
      .addEdge "p.A" "p.B" .call, .addEdge "p.C" "p" .call, .addEdge "p.A" "p.A" .call,
      .register "p.B" .type (some "p"), .addVertex ⟨2⟩, .addTypes]
    let m := ({} : Model).applyAll changes
    ({} : Model).allows changes = true ∧
      m.graph.vertices.toList = [⟨1⟩, ⟨2⟩, ⟨3⟩] ∧
      (∃ e, m.index.get? ⟨2⟩ = some e ∧ (e.kind = .type ∨ e.kind = .external)) ∧
      ∃ e, m.graph.edges[0]? = some e ∧ e.source ≠ e.target ∧ e.usage.toNat = 2 := by
  intro changes m
  have allowed : ({} : Model).allows changes = true := by decide +kernel
  have vertices : m.graph.vertices.toList = [⟨1⟩, ⟨2⟩, ⟨3⟩] := by decide +kernel
  obtain ⟨-, known, -, edges, -⟩ := graph_stays_coherent changes allowed
  have edge : m.graph.edges[0]? = some ⟨⟨1⟩, ⟨2⟩, .call, 2⟩ := by decide +kernel
  have counted : (({} : Model).outcomes changes).count (.edge (some 0)) = 2 := by decide +kernel
  obtain ⟨apart, -, -, usage⟩ := edges 0 _ edge
  refine ⟨allowed, vertices, known ⟨2⟩ ?_, _, edge, apart, ?_⟩
  · show ⟨2⟩ ∈ m.graph.vertices.toList
    rw [vertices]
    decide
  · rw [counted] at usage
    exact (usage (by decide)).1

/-! ## Histories between two models

A scan notes what it does, so its model is not literally the one that a list of changes leads to.
The journal decides nothing: changes lead models that differ only there to such models again. -/

/-- The index and the graph are the same. -/
structure Alike (m n : Model) : Prop where
  index : m.index = n.index
  graph : m.graph = n.graph

section Alike

variable {n : Model}

/-- Two models that are alike differ in their journal only. -/
theorem Alike.eq_with (alike : m.Alike n) : ∃ journal, n = { m with journal := journal } := by
  obtain ⟨index, graph, journal⟩ := m
  obtain ⟨index', graph', journal'⟩ := n
  obtain ⟨rfl, rfl⟩ : index = index' ∧ graph = graph' := ⟨alike.index, alike.graph⟩
  exact ⟨journal', rfl⟩

/-- Models that are alike resolve keys alike.  The journal is written, but never read. -/
theorem Alike.resolve (alike : m.Alike n) (key : String) :
    (m.resolve key).1 = (n.resolve key).1 ∧ (m.resolve key).2.Alike (n.resolve key).2 := by
  obtain ⟨journal, rfl⟩ := alike.eq_with
  unfold Model.resolve
  cases found : m.index.find? key with
  | none => exact ⟨rfl, rfl, rfl⟩
  | some e =>
      dsimp only
      split
      · exact ⟨rfl, rfl, rfl⟩
      · exact ⟨rfl, rfl, rfl⟩

/-- Models that are alike count a dependency alike, and answer alike.  Both ends are resolved alike,
and then the graphs are equal, so the edge has the same number in both. -/
theorem Alike.addEdge (alike : m.Alike n) (source target : String) (kind : EdgeKind) :
    (m.addEdge source target kind).1 = (n.addEdge source target kind).1 ∧
      (m.addEdge source target kind).2.Alike (n.addEdge source target kind).2 := by
  unfold Model.addEdge
  split
  · exact ⟨rfl, alike⟩
  · obtain ⟨same, alike₁⟩ := alike.resolve source
    generalize m.resolve source = first at same alike₁ ⊢
    generalize n.resolve source = first' at same alike₁ ⊢
    obtain ⟨answer, m₁⟩ := first
    obtain ⟨answer', n₁⟩ := first'
    subst same
    cases answer with
    | error e => exact ⟨rfl, alike₁⟩
    | ok s =>
        obtain ⟨same, alike₂⟩ := Alike.resolve alike₁ target
        dsimp only at same alike₂ ⊢
        generalize m₁.resolve target = second at same alike₂ ⊢
        generalize n₁.resolve target = second' at same alike₂ ⊢
        obtain ⟨answer, m₂⟩ := second
        obtain ⟨answer', n₂⟩ := second'
        subst same
        cases answer with
        | error e => exact ⟨rfl, alike₂⟩
        | ok t =>
            obtain ⟨journal, rfl⟩ := alike₂.eq_with
            exact ⟨rfl, rfl, rfl⟩

/-- Models that are alike stay so under every change.  For each kind of change this comes down to
the same function of the same index and the same graph; only the notes go to different journals. -/
theorem Alike.apply (alike : m.Alike n) (change : Change) :
    (m.apply change).2.Alike (n.apply change).2 := by
  cases change with
  | addEdge source target kind => exact (alike.addEdge source target kind).2
  | register key kind parent =>
      obtain ⟨journal, rfl⟩ := alike.eq_with
      simp only [Model.apply, register]
      cases m.index.register key kind parent with
      | ok result => exact ⟨rfl, rfl⟩
      | error e => exact ⟨rfl, rfl⟩
  | attach key name value =>
      obtain ⟨journal, rfl⟩ := alike.eq_with
      simp only [Model.apply, attach]
      cases m.index.attach key name value with
      | ok index => exact ⟨rfl, rfl⟩
      | error e => exact ⟨rfl, rfl⟩
  | attachTo h name value =>
      obtain ⟨journal, rfl⟩ := alike.eq_with
      simp only [Model.apply, attachTo]
      cases m.index.attachTo h name value with
      | ok index => exact ⟨rfl, rfl⟩
      | error e => exact ⟨rfl, rfl⟩
  | registerExternal key =>
      obtain ⟨journal, rfl⟩ := alike.eq_with
      exact ⟨rfl, rfl⟩
  | addVertex h =>
      obtain ⟨journal, rfl⟩ := alike.eq_with
      exact ⟨rfl, rfl⟩
  | addTypes =>
      obtain ⟨journal, rfl⟩ := alike.eq_with
      exact ⟨rfl, rfl⟩
  | clearIndex =>
      obtain ⟨journal, rfl⟩ := alike.eq_with
      exact ⟨rfl, rfl⟩

/-- Models that are alike stay so under all histories. -/
theorem Alike.applyAll (alike : m.Alike n) (changes : List Change) :
    (m.applyAll changes).Alike (n.applyAll changes) := by
  induction changes generalizing m n with
  | nil => exact alike
  | cons change rest ih => exact ih (alike.apply change)

/-- Models that are alike allow the same histories. -/
theorem Alike.allows (alike : m.Alike n) (changes : List Change) :
    m.allows changes = n.allows changes := by
  induction changes generalizing m n with
  | nil => rfl
  | cons change rest ih =>
      have first : change.allowedIn m = change.allowedIn n := by
        obtain ⟨journal, rfl⟩ := alike.eq_with
        cases change <;> rfl
      rw [Model.allows, Model.allows, first, ih (alike.apply change)]

end Alike

/-- A history is allowed if its first part is, and then the second one in the model that the first
one leads to. -/
theorem allows_append (m : Model) (first second : List Change) :
    m.allows (first ++ second) = (m.allows first && (m.applyAll first).allows second) := by
  induction first generalizing m with
  | nil => rfl
  | cons change rest ih =>
      rw [List.cons_append, allows, allows, ih, Bool.and_assoc]
      rfl

/-- Allowed changes lead from one model to the other. -/
def Evolves (m m' : Model) : Prop :=
  ∃ changes, m.allows changes = true ∧ (m.applyAll changes).Alike m'

namespace Evolves

variable {m'' : Model}

/-- A model evolves into any model with the same index and graph, without a change. -/
theorem of_alike (alike : m.Alike m') : m.Evolves m' := ⟨[], rfl, alike⟩

theorem refl (m : Model) : m.Evolves m := of_alike ⟨rfl, rfl⟩

/-- One evolution after another is an evolution; the histories are appended. -/
theorem trans (first : m.Evolves m') (second : m'.Evolves m'') : m.Evolves m'' := by
  obtain ⟨changes, allowed, alike⟩ := first
  obtain ⟨changes', allowed', alike'⟩ := second
  refine ⟨changes ++ changes', ?_, ?_⟩
  · rw [allows_append, allowed, alike.allows, allowed']
    rfl
  · have later := alike.applyAll changes'
    rw [applyAll, List.foldl_append]
    exact ⟨later.index.trans alike'.index, later.graph.trans alike'.graph⟩

/-- One change is made. -/
theorem single (change : Change) (allowed : change.allowedIn m = true)
    (alike : (m.apply change).2.Alike m') : m.Evolves m' := by
  refine ⟨[change], ?_, alike⟩
  rw [allows, allowed]
  rfl

/-- Soundness is kept for ever, whatever allowed history lies between two models. -/
theorem sound (evolves : m.Evolves m') (sound : m.Sound) : m'.Sound := by
  obtain ⟨changes, allowed, alike⟩ := evolves
  obtain ⟨journal, rfl⟩ := alike.eq_with
  have reached := sound.applyAll allowed
  exact ⟨reached.index, reached.graph, reached.founded, reached.loopless⟩

/-- Elements keep their keys and their kinds. -/
theorem grows (evolves : m.Evolves m') (sound : m.Sound) : m.index.Grows m'.index := by
  obtain ⟨changes, allowed, alike⟩ := evolves
  rw [← alike.index]
  exact .of_moves (sound.applyAll_moves allowed)

end Evolves

end Model

end CodeMetrics
