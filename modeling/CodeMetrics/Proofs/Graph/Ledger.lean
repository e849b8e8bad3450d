import CodeMetrics.Proofs.Graph.History
import CodeMetrics.Proofs.Index.Anticipation

/-!
# The ledger of a graph

A graph that starts empty is a ledger of the dependencies that were accepted.  `Model.acceptances`
lists them from the changes and their answers, and `Model.Ledger` says that the edges are their
tally: one edge for each, in the order in which they were first accepted, used as often as they
were.  Whatever else happens to the index and the vertices, only an accepted dependency is entered.

An edge keeps its place, since the tally grows at its end only.  So the number that a dependency is
answered with is the place of its edge for good.
-/

namespace CodeMetrics

/-! ## Places in a tally -/

/-- What is there already keeps its place when more is listed. -/
theorem eraseDups_prefix {α : Type} [BEq α] [LawfulBEq α] (l l' : List α) :
    l.eraseDups <+: (l ++ l').eraseDups := by
  rw [List.eraseDups_append]
  exact List.prefix_append _ _

/-- A dependency is counted, or gets its edge, at the place that is answered. -/
theorem Graph.link_connect {g : Graph} (sound : g.Sound) {s t : Handle} (apart : s ≠ t)
    {kind : EdgeKind} {n : Nat} (number : (g.connect s t kind).1 = some n) :
    ((g.connect s t kind).2.edges[n]?).map Edge.link = some (s, t, kind) := by
  obtain ⟨n', same, counted⟩ := connect_cases s t kind sound apart
  obtain rfl : n = n' := Option.some.inj (number.symm.trans same)
  rcases counted with ⟨⟨e, found, linked⟩, edges⟩ | ⟨rfl, edges⟩
  · rw [edges, Array.getElem?_modify, if_pos rfl, found, ← linked]
    rfl
  · rw [edges]
    exact congrArg (Option.map Edge.link) Array.getElem?_push_size

namespace Model

/-! ## Accepted dependencies -/

/-- The dependency that an answer enters. -/
def Change.dependency? : Change → Outcome → Option Dependency
  | .addEdge source target kind, .edge (some _) => some ⟨source, target, kind⟩
  | _, _ => none

/-- The dependencies that are accepted among some changes, in order. -/
def acceptances (m : Model) (changes : List Change) : List Dependency :=
  (changes.zip (m.outcomes changes)).filterMap fun answered => answered.1.dependency? answered.2

variable {m : Model} {ds : List Dependency}

theorem acceptances_cons (m : Model) (change : Change) (rest : List Change) :
    m.acceptances (change :: rest) =
      (change.dependency? (m.apply change).1).toList ++ (m.apply change).2.acceptances rest := by
  unfold acceptances
  rw [outcomes, List.zip_cons_cons, List.filterMap_cons]
  cases change.dependency? (m.apply change).1 <;> rfl

/-- What a longer history accepts is what its first part accepts, and then what the second part
accepts after it. -/
theorem acceptances_append (m : Model) (first second : List Change) :
    m.acceptances (first ++ second) =
      m.acceptances first ++ (m.applyAll first).acceptances second := by
  induction first generalizing m with
  | nil => rfl
  | cons change rest ih =>
      rw [List.cons_append, acceptances_cons, acceptances_cons, ih, List.append_assoc]
      rfl

/-- The edges are the tally of some dependencies. -/
structure Ledger (m : Model) (ds : List Dependency) : Prop where
  sound : m.Sound
  entered : m.graph.keyedEdges m.index = tally ds

namespace Ledger

theorem anchored (ledger : m.Ledger ds) : m.graph.Anchored m.index :=
  ledger.sound.founded.anchored ledger.sound.graph

/-- The edges are the tally, none left out. -/
theorem map_keyed? (ledger : m.Ledger ds) :
    m.graph.edges.toList.map (Edge.keyed? m.index) = (tally ds).map some := by
  rw [← ledger.entered, ledger.anchored.map_keyed?]

/-- The edges and the accepted dependencies, each taken when it came first, correspond by place. -/
theorem at_place (ledger : m.Ledger ds) (n : Nat) :
    (m.graph.edges[n]?).map (Edge.keyed? m.index) =
      (ds.eraseDups[n]?).map fun d => some (d.countedIn ds) := by
  have same := congrArg (·[n]?) ledger.map_keyed?
  simpa [tally, Function.comp_def] using same

/-- Every edge has its entry in the ledger, at the same place and with the same number of uses. -/
theorem edge_at (ledger : m.Ledger ds) {n : Nat} {e : Edge}
    (found : m.graph.edges[n]? = some e) :
    ∃ d, ds.eraseDups[n]? = some d ∧ e.keyed? m.index = some (d.countedIn ds) := by
  have same := ledger.at_place n
  rw [found, Option.map_some] at same
  obtain ⟨d, listed, keyed⟩ := Option.map_eq_some_iff.mp same.symm
  exact ⟨d, listed, keyed.symm⟩

/-- Every entry of the ledger has its edge. -/
theorem exists_edge (ledger : m.Ledger ds) {n : Nat} {d : Dependency}
    (listed : ds.eraseDups[n]? = some d) :
    ∃ e, m.graph.edges[n]? = some e ∧ e.keyed? m.index = some (d.countedIn ds) := by
  have same := ledger.at_place n
  rw [listed, Option.map_some] at same
  exact Option.map_eq_some_iff.mp same

/-! ## One change -/

/-- Changes that count nothing leave the edges and their keys alone. -/
theorem uncounted (ledger : m.Ledger ds) {m' : Model} (sound : m'.Sound)
    (grows : m.index.Grows m'.index) (edges : m'.graph.edges = m.graph.edges) : m'.Ledger ds where
  sound := sound
  entered := by
    rw [← ledger.entered, ← Graph.keyedEdges_grows ledger.anchored grows,
      Graph.keyedEdges_eq, Graph.keyedEdges_eq, edges]

/-- A dependency that is accepted is entered into the ledger, and nothing is entered otherwise.  A
refused one may have added a vertex and a placeholder; the edges are those of before. -/
theorem addEdge (ledger : m.Ledger ds) (source target : String) (kind : EdgeKind) :
    (m.addEdge source target kind).2.Ledger
      (ds ++ ((Change.addEdge source target kind).dependency?
        (.ofEdge (m.addEdge source target kind).1)).toList) := by
  have sound := ledger.sound.addEdge source target kind
  have links := addEdge_links ledger.sound.index source target kind
  generalize m.addEdge source target kind = result at links sound ⊢
  cases links with
  | self _ => exact (List.append_nil ds).symm ▸ ledger
  | sourceRefused _ _ => exact (List.append_nil ds).symm ▸ ledger
  | targetRefused _ first _ =>
      exact (List.append_nil ds).symm ▸ ledger.uncounted sound first.grows first.edges_eq
  | counted apart first second _ =>
      have ledger₂ := ledger.uncounted ((ledger.sound.resolved first).resolved second)
        (first.grows.trans second.grows) (second.edges_eq.trans first.edges_eq)
      refine ⟨sound, ?_⟩
      exact Graph.keyedEdges_connect ledger₂.sound.graph ledger₂.sound.index.toCoherent
        (first.ends_apart apart second) (second.grows.key_kept first.placed.key?) second.placed.key?
        ledger₂.entered

/-- A change enters the dependency that it is answered for. -/
theorem apply (ledger : m.Ledger ds) {change : Change} (allowed : change.allowedIn m = true) :
    (m.apply change).2.Ledger (ds ++ (change.dependency? (m.apply change).1).toList) := by
  have sound := ledger.sound.apply allowed
  have grows : m.index.Grows (m.apply change).2.index :=
    .of_moves (ledger.sound.apply_moves allowed)
  cases change with
  | addEdge source target kind => exact ledger.addEdge source target kind
  | _ =>
      show Ledger _ (ds ++ [])
      rw [List.append_nil]
      exact ledger.uncounted sound grows (m.edges_apply (by simp))

/-! ## Any number of changes -/

/-- A history enters what it accepts. -/
theorem applyAll (ledger : m.Ledger ds) {changes : List Change}
    (allowed : m.allows changes = true) :
    (m.applyAll changes).Ledger (ds ++ m.acceptances changes) := by
  induction changes generalizing m ds with
  | nil => exact (List.append_nil ds).symm ▸ ledger
  | cons change rest ih =>
      obtain ⟨first, others⟩ := Bool.and_eq_true_iff.mp allowed
      have later := ih (ledger.apply first) others
      rw [List.append_assoc, ← acceptances_cons] at later
      exact later

/-- A graph that is empty is the ledger of nothing. -/
theorem blank {ix : Index} (sound : ix.Sound) : Ledger { index := ix } [] where
  sound :=
    { index := sound
      graph := .empty
      founded := .empty _
      loopless := by
        intro e listed
        cases listed }
  entered := rfl

end Ledger

/-! ## Answers -/

/-- The answer to a dependency is that of the operation. -/
theorem apply_addEdge_eq_iff (m : Model) {source target : String} {kind : EdgeKind}
    {n : Option Nat} :
    (m.apply (.addEdge source target kind)).1 = .edge n ↔
      (m.addEdge source target kind).1 = .ok n := by
  show Outcome.ofEdge (m.addEdge source target kind).1 = .edge n ↔ _
  cases (m.addEdge source target kind).1 <;> simp [Outcome.ofEdge]

/-- A dependency of a key on itself, and no other, is answered without an edge. -/
theorem addEdge_none_iff (sound : m.index.Sound) (source target : String) (kind : EdgeKind) :
    (m.addEdge source target kind).1 = .ok none ↔ source = target := by
  have links := addEdge_links sound source target kind
  generalize m.addEdge source target kind = result at links ⊢
  cases links with
  | self same => exact iff_of_true rfl same
  | sourceRefused apart _ => exact iff_of_false (by simp) apart
  | targetRefused apart _ _ => exact iff_of_false (by simp) apart
  | counted apart _ _ _ => exact iff_of_false (by simp) apart

/-- A key that is resolved and was known is a type or a placeholder.  Everything else would have
been refused. -/
theorem isTypeLevel_of_resolved {m' : Model} {key : String} {h : Handle} {kind : Kind}
    (coherent : m.index.Coherent) (resolved : m.Resolved key h m') (has : m.index.Has key kind) :
    kind.isTypeLevel = true := by
  obtain ⟨placed, -⟩ := resolved
  generalize m'.index = base at placed
  cases placed with
  | kept named is fits =>
      rw [has.unique ⟨_, named, is⟩ coherent]
      rcases fits with rfl | ⟨rfl, -⟩
      · rfl
      · rfl
  | promoted _ _ impossible => cases impossible
  | inserted fresh =>
      obtain ⟨g, named, -⟩ := has
      rw [coherent.handle?_iff.mpr named] at fresh
      cases fresh

/-- A dependency is accepted exactly if its ends differ and none of them is known as something that
has no dependencies. -/
theorem addEdge_some_iff (sound : m.index.Sound) (source target : String) (kind : EdgeKind) :
    (∃ n, (m.addEdge source target kind).1 = .ok (some n)) ↔
      source ≠ target ∧ ∀ key ∈ [source, target], ∀ existing, m.index.Has key existing →
        existing.isTypeLevel = true := by
  have links := addEdge_links sound source target kind
  generalize m.addEdge source target kind = result at links ⊢
  cases links with
  | self same => exact iff_of_false (by simp) fun fit => fit.1 same
  | sourceRefused _ unfit =>
      refine iff_of_false (by simp) fun fit => ?_
      have level := fit.2 source (by simp) _ unfit.known
      rw [unfit.low] at level
      cases level
  | targetRefused apart first unfit =>
      refine iff_of_false (by simp) fun fit => ?_
      have known := (first.placed.has_iff_of_ne apart.symm).mp unfit.known
      have level := fit.2 target (by simp) _ known
      rw [unfit.low] at level
      cases level
  | counted apart first second _ =>
      refine iff_of_true ⟨_, rfl⟩ ⟨apart, fun key listed existing has => ?_⟩
      rcases List.mem_pair.mp listed with rfl | rfl
      · exact isTypeLevel_of_resolved sound.toCoherent first has
      · have sound₁ := sound.moves first.placed.moves
        exact isTypeLevel_of_resolved sound₁.toCoherent second
          ((first.placed.has_iff_of_ne apart.symm).mpr has)

/-- The answer to an accepted dependency is the place of its edge, which is the place of the
dependency among those that were accepted, each counted when it came first. -/
theorem Ledger.place_addEdge (ledger : m.Ledger ds) {source target : String} {kind : EdgeKind}
    {n : Nat} (answered : (m.addEdge source target kind).1 = .ok (some n)) :
    (ds ++ [Dependency.mk source target kind]).eraseDups[n]? = some ⟨source, target, kind⟩ := by
  have after := ledger.addEdge source target kind
  have links := addEdge_links ledger.sound.index source target kind
  generalize m.addEdge source target kind = result at links after answered
  cases links with
  | self _ => cases answered
  | sourceRefused _ _ => cases answered
  | targetRefused _ _ _ => cases answered
  | counted apart first second number =>
      cases answered
      have sound₂ := (ledger.sound.resolved first).resolved second
      obtain ⟨e, found, linked⟩ := Option.map_eq_some_iff.mp
        (Graph.link_connect sound₂.graph (first.ends_apart apart second) number)
      obtain ⟨d, listed, keyed⟩ := after.edge_at found
      have same : d = ⟨source, target, kind⟩ := (Graph.dependency_eq_iff sound₂.index.toCoherent
        (second.grows.key_kept first.placed.key?) second.placed.key? keyed).mpr linked
      rw [← same]
      exact same ▸ listed

theorem outcomes_append (m : Model) (first second : List Change) :
    m.outcomes (first ++ second) = m.outcomes first ++ (m.applyAll first).outcomes second := by
  induction first generalizing m with
  | nil => rfl
  | cons change rest ih =>
      rw [List.cons_append, outcomes, ih]
      rfl

theorem length_outcomes (m : Model) (changes : List Change) :
    (m.outcomes changes).length = changes.length := by
  induction changes generalizing m with
  | nil => rfl
  | cons change rest ih => rw [outcomes, List.length_cons, List.length_cons, ih]

/-! ## The edges of a history -/

/-- **The graph is the tally of the accepted dependencies.**  From any index and an empty graph on,
after any changes, the edges are one for each accepted dependency, in the order in which they were
first accepted, with two different ends and the number of acceptances as usage.  A dependency is
accepted unless its ends are the same or one of them is no type, and the answer is the place of its
edge.  It is answered without an edge exactly if its ends are the same, and then nothing changes. -/
theorem edges_tally_accepted (history changes : List Change)
    (allowed : ({ index := (({} : Model).applyAll history).index } : Model).allows changes = true) :
    let m : Model := { index := (({} : Model).applyAll history).index }
    let last := m.applyAll changes
    let accepted := m.acceptances changes
    last.graph.edges.toList.map (Edge.keyed? last.index) = (tally accepted).map some ∧
      (∀ (n : Nat) (e : Edge), last.graph.edges[n]? = some e →
        ∃ d, accepted.eraseDups[n]? = some d ∧ d.source ≠ d.target ∧
          e.keyed? last.index = some ⟨d.source, d.target, d.kind, e.usage⟩ ∧
          (accepted.count d < UInt32.size → e.usage.toNat = accepted.count d)) ∧
      ∀ before source target kind after,
        changes = before ++ .addEdge source target kind :: after →
        let now := m.applyAll before
        let call := now.apply (.addEdge source target kind)
        (m.outcomes changes)[before.length]? = some call.1 ∧
          (call.1 = .edge none ↔ source = target) ∧
          (source = target → call.2 = now) ∧
          ((∃ n, call.1 = .edge (some n)) ↔ source ≠ target ∧
            ∀ key ∈ [source, target], ∀ e, now.index.find? key = some e →
              e.kind.isTypeLevel = true) ∧
          ∀ n, call.1 = .edge (some n) →
            accepted.eraseDups[n]? = some ⟨source, target, kind⟩ ∧
              ∃ e, last.graph.edges[n]? = some e ∧
                e.keyed? last.index = some ⟨source, target, kind, e.usage⟩ := by
  intro m last accepted
  have blank : m.Ledger [] := .blank (({} : Model).applyAll_sound .empty history)
  have ledger : last.Ledger accepted := blank.applyAll allowed
  refine ⟨ledger.map_keyed?, fun n e found => ?_, ?_⟩
  · -- an edge: its entry in the ledger says what it stands for
    obtain ⟨d, listed, keyed⟩ := ledger.edge_at found
    obtain ⟨source, target, kind, usage⟩ := Edge.keyed?_eq_some_iff.mp keyed
    refine ⟨d, listed, fun same => ?_, ?_, fun few => ?_⟩
    · have apart := ledger.sound.loopless e (Array.mem_toList_iff.mpr (Array.mem_of_getElem? found))
      exact apart
        (ledger.sound.index.key?_injective source (target.trans (congrArg some same.symm)))
    · rw [keyed, usage]
      rfl
    · rw [usage]
      exact UInt32.toNat_ofNat_of_lt' few
  · rintro before source target kind after rfl now call
    -- a dependency in the middle: the ledger of the changes before it says what it meets
    rw [allows_append, Bool.and_eq_true] at allowed
    have ledger' : now.Ledger (m.acceptances before) := blank.applyAll allowed.1
    have sound := ledger'.sound.index
    refine ⟨?_, ?_, fun same => ?_, ?_, fun n answered => ?_⟩
    · rw [outcomes_append, List.getElem?_append_right (by rw [length_outcomes]), length_outcomes,
        Nat.sub_self]
      rfl
    · exact now.apply_addEdge_eq_iff.trans (addEdge_none_iff sound source target kind)
    · show (now.addEdge source target kind).2 = now
      rw [addEdge, if_pos same]
    · refine (exists_congr fun n => now.apply_addEdge_eq_iff).trans ?_
      refine (addEdge_some_iff sound source target kind).trans ?_
      simp only [Index.has_iff sound.toCoherent, forall_exists_index, and_imp]
      refine and_congr_right fun _ => forall₂_congr fun key _ => ?_
      exact ⟨fun level e found => level e.kind e found rfl,
        fun level _ e found is => is ▸ level e found⟩
    · have place := ledger'.place_addEdge (now.apply_addEdge_eq_iff.mp answered)
      have entry : (Change.addEdge source target kind).dependency? call.1 =
          some ⟨source, target, kind⟩ := by rw [answered]; rfl
      have split : accepted =
          m.acceptances before ++ [⟨source, target, kind⟩] ++ call.2.acceptances after := by
        rw [List.append_assoc]
        refine (m.acceptances_append before _).trans (congrArg (m.acceptances before ++ ·) ?_)
        rw [acceptances_cons, entry]
        rfl
      have listed : accepted.eraseDups[n]? = some ⟨source, target, kind⟩ := by
        obtain ⟨rest, longer⟩ := eraseDups_prefix
          (m.acceptances before ++ [⟨source, target, kind⟩]) (call.2.acceptances after)
        rw [split, ← longer, List.getElem?_append_left (List.getElem?_eq_some_iff.mp place).1]
        exact place
      obtain ⟨e, found, keyed⟩ := ledger.exists_edge listed
      have usage := (Edge.keyed?_eq_some_iff.mp keyed).2.2.2
      refine ⟨listed, e, found, ?_⟩
      rw [keyed, usage]
      rfl

/-- Calls in both directions, one of them repeated after its target became a type, one that is
refused, and one of a type on itself. -/
def mixedCalls : List Change :=
  [.addEdge "A" "B" .call, .addEdge "B" "A" .call, .addEdge "A" "p" .call, .register "B" .type none,
    .addTypes, .addEdge "A" "A" .call, .addEdge "A" "B" .call]

theorem edges_tally_accepted_mixedCalls :
    ∃ m : Model, { index := (({} : Model).applyAll [.register "p" .package none]).index } = m ∧
      m.allows mixedCalls = true ∧
      (m.applyAll mixedCalls).graph.edges.toList.map (Edge.keyed? (m.applyAll mixedCalls).index) =
        [some ⟨"A", "B", .call, 2⟩, some ⟨"B", "A", .call, 1⟩] := by
  have allowed : ({ index := (({} : Model).applyAll
      [.register "p" .package none]).index } : Model).allows mixedCalls = true := by decide +kernel
  have accepted : tally (({ index := (({} : Model).applyAll
      [.register "p" .package none]).index } : Model).acceptances mixedCalls) =
      [⟨"A", "B", .call, 2⟩, ⟨"B", "A", .call, 1⟩] := by decide +kernel
  obtain ⟨edges, -⟩ := edges_tally_accepted [.register "p" .package none] mixedCalls allowed
  generalize ({ index := (({} : Model).applyAll [.register "p" .package none]).index } : Model) = m
    at allowed accepted edges ⊢
  refine ⟨m, rfl, allowed, ?_⟩
  rw [edges, accepted]
  rfl

end Model

end CodeMetrics
