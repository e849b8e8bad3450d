import CodeMetrics.Proofs.Graph.Ledger

/-!
# Dependencies that are refused

The ends of a dependency are resolved one after the other.  When the target is refused, the source
has been made a vertex already, and a placeholder if it was not known.  So a refused dependency
leaves the model as it is exactly if no vertex had to be made for its source (`Model.Arrives`).
Otherwise the source is all that stays: no edge and no usage changes, and no other element does.
-/

namespace CodeMetrics

namespace Index

variable {ix base : Index} {key : String} {h : Handle}

/-- A placeholder is placed by the registration of a placeholder. -/
theorem Placed.registerExternal_eq (placed : ix.Placed key .external h base)
    (coherent : ix.Coherent) : ix.registerExternal key = (h, base) := by
  unfold registerExternal
  cases placed with
  | kept named _ _ => rw [coherent.handle?_iff.mpr named]
  | promoted _ _ reported => cases reported
  | inserted fresh =>
      rw [fresh]
      rfl

/-- Elements stay as they are when a placeholder is registered. -/
theorem get?_registerExternal {e : Element} (found : ix.get? h = some e) :
    (ix.registerExternal key).2.get? h = some e := by
  have old : h ≠ ⟨ix.size⟩ := by
    rintro rfl
    exact not_knows_size ix (.of_get? found)
  unfold registerExternal
  split
  · exact found
  · rw [get?_insert, if_neg old]
    exact found

/-- The other keys have the elements that they had, whether a placeholder is made or not. -/
theorem find?_registerExternal_of_ne (coherent : ix.Coherent) {k : String} (apart : k ≠ key) :
    (ix.registerExternal key).2.find? k = ix.find? k := by
  have listed : (ix.registerExternal key).2.handle? k = ix.handle? k := by
    unfold registerExternal
    split
    · rfl
    · rw [handle?_insert, if_neg apart.symm]
  unfold find?
  rw [listed]
  cases known : ix.handle? k with
  | none => rfl
  | some g =>
      obtain ⟨e, found⟩ := knows_iff_get?.mp (.of_key? (coherent.handle?_iff.mp known))
      rw [Option.bind_some, Option.bind_some, found, get?_registerExternal found]

end Index

/-- Only a new vertex changes a graph.  A vertex that is there is found and left alone. -/
theorem Graph.addVertex_eq_self_iff (g : Graph) (h : Handle) :
    (g.addVertex h).2 = g ↔ g.contains h = true := by
  constructor
  · intro same
    have vertices := vertices_addVertex g h
    rw [same] at vertices
    by_contra new
    rw [if_neg new] at vertices
    exact List.cons_ne_nil _ _ (List.self_eq_append_right.mp vertices)
  · intro known
    obtain ⟨n, noted⟩ := contains_iff_node?.mp known
    rw [addVertex_of_known noted]

namespace Model

variable {m m' : Model} {key : String} {h : Handle}

/-- A vertex would have to be made for the key: it is not known, or it belongs to a type or a
placeholder that is not a vertex. -/
def Arrives (m : Model) (key : String) : Prop :=
  ∀ e, m.index.find? key = some e → e.kind.isTypeLevel = true ∧ m.graph.contains e.handle = false

/-- The end of a dependency is resolved without a change exactly if it does not arrive: its key is
known, and its element is a vertex already. -/
theorem Resolved.unchanged_iff (resolved : m.Resolved key h m') (coherent : m.index.Coherent) :
    m'.index = m.index ∧ m'.graph = m.graph ↔ ¬ m.Arrives key := by
  obtain ⟨placed, graph⟩ := resolved
  rw [graph, Graph.addVertex_eq_self_iff]
  generalize m'.index = base at placed ⊢
  cases placed with
  | @kept h existing named is fits =>
      obtain ⟨e, found, rfl⟩ := Option.map_eq_some_iff.mp named
      have same := coherent.handle_eq found
      subst same
      have level : e.kind.isTypeLevel = true := by
        rw [Index.kind?_of_get? found, Option.some.injEq] at is
        rw [is]
        rcases fits with rfl | ⟨rfl, -⟩
        · rfl
        · rfl
      have known := coherent.find?_eq_some_iff.mpr ⟨found, rfl⟩
      refine ⟨fun unchanged arrives => ?_, fun present => ⟨rfl, ?_⟩⟩
      · have new := (arrives e known).2
        rw [unchanged.2] at new
        cases new
      · by_contra new
        refine present fun e' known' => ?_
        rw [known, Option.some.injEq] at known'
        subst known'
        exact ⟨level, Bool.eq_false_iff.mpr new⟩
  | promoted _ _ reported => cases reported
  | inserted fresh =>
      -- a placeholder was made, so the index is larger than before
      refine iff_of_false (fun unchanged => ?_) fun present => present fun e known => ?_
      · have size := congrArg Index.size unchanged.1
        rw [Index.size_insert] at size
        omega
      · rw [coherent.find?_eq_none_iff.mpr fresh] at known
        cases known

/-- What is known as something without dependencies is found as that. -/
theorem Unfit.find? {kind : Kind} (unfit : m.Unfit key kind) (coherent : m.index.Coherent) :
    ∃ e, m.index.find? key = some e ∧ e.kind.isTypeLevel = false ∧ e.kind = kind := by
  obtain ⟨e, found, is⟩ := (Index.has_iff coherent).mp unfit.known
  exact ⟨e, found, is ▸ unfit.low, is⟩

theorem Unfit.not_arrives {kind : Kind} (unfit : m.Unfit key kind) (coherent : m.index.Coherent) :
    ¬ m.Arrives key := by
  obtain ⟨e, found, low, -⟩ := unfit.find? coherent
  intro arrives
  have level := (arrives e found).1
  rw [low] at level
  cases level

/-- **A refused dependency leaves at most its source behind.**  One of its ends is known as something
without dependencies, and the error names the first such end.  No edge changes, no element that was
there does, and no key but that of the source has another element than before.  Index and graph are
exactly as before unless a vertex had to be made for the source.  Then they are as before but for
this vertex, and for the placeholder of a source that was not known. -/
theorem refused_dependency_leaves_source (history : List Change) (m : Model)
    (reached : m.index = (({} : Model).applyAll history).index) (source target : String)
    (kind : EdgeKind) {e : GraphError} (refused : (m.addEdge source target kind).1 = .error e) :
    let t := (m.addEdge source target kind).2
    (∃ key ∈ [source, target], ∃ x, m.index.find? key = some x ∧ x.kind.isTypeLevel = false ∧
        e = .notAType key x.kind ∧
        (key = target → ∀ y, m.index.find? source = some y → y.kind.isTypeLevel = true)) ∧
      t.graph.edges = m.graph.edges ∧
      (∀ h x, m.index.get? h = some x → t.index.get? h = some x) ∧
      (∀ key, key ≠ source → t.index.find? key = m.index.find? key) ∧
      (t.index = m.index ∧ t.graph = m.graph ↔ ¬ m.Arrives source) ∧
      (m.Arrives source → t.index = (m.index.registerExternal source).2 ∧
        t.graph = (m.graph.addVertex (m.index.registerExternal source).1).2) := by
  have sound : m.index.Sound := by
    rw [reached]
    exact ({} : Model).applyAll_sound .empty history
  have coherent := sound.toCoherent
  have links := addEdge_links sound source target kind
  generalize m.addEdge source target kind = result at links refused ⊢
  cases links with
  | self _ => cases refused
  | counted _ _ _ _ => cases refused
  | sourceRefused apart unfit =>
      cases refused
      obtain ⟨x, found, low, rfl⟩ := unfit.find? coherent
      have settled := unfit.not_arrives coherent
      refine ⟨⟨source, by simp, x, found, low, rfl, fun same => absurd same apart⟩, rfl,
        fun _ _ => id, fun _ _ => rfl, iff_of_true ⟨rfl, rfl⟩ settled, fun arrives => ?_⟩
      exact absurd arrives settled
  | @targetRefused s m₁ targetKind apart first unfit =>
      cases refused
      have placed := first.placed.registerExternal_eq coherent
      have index : m₁.index = (m.index.registerExternal source).2 := by rw [placed]
      -- the target is refused in the model that the source has left, but it is not the source, so
      -- it was known before
      obtain ⟨x, found, low, rfl⟩ := unfit.find? (sound.moves first.placed.moves).toCoherent
      rw [index, Index.find?_registerExternal_of_ne coherent apart.symm] at found
      refine ⟨⟨target, by simp, x, found, low, rfl, fun _ y known => ?_⟩, first.edges_eq,
        fun h y known => ?_, fun key other => ?_, first.unchanged_iff coherent, fun _ => ⟨index, ?_⟩⟩
      · exact isTypeLevel_of_resolved coherent first
          ((Index.has_iff coherent).mpr ⟨y, known, rfl⟩)
      · rw [index]
        exact Index.get?_registerExternal known
      · rw [index]
        exact Index.find?_registerExternal_of_ne coherent other
      · rw [placed]
        exact first.graph

/-- A package, and two types with a dependency. -/
def packagedTypes : List Change :=
  [.register "p" .package none, .register "p/A" .type (some "p"), .addEdge "p/A" "p/B" .call]

/-- A dependency on a package is refused, and the unknown type that it was to lead from stays as a
placeholder and as a vertex. -/
theorem refusedTarget_leaves_placeholder :
    let m := ({} : Model).applyAll packagedTypes
    let t := (m.addEdge "q/C" "p" .call).2
    (m.addEdge "q/C" "p" .call).1 = .error (.notAType "p" .package) ∧
      (m.index.find? "q/C").isNone = true ∧
      (t.index.find? "q/C").map Element.kind = some .external ∧
      m.graph.vertices = #[⟨1⟩, ⟨2⟩] ∧ t.graph.vertices = #[⟨1⟩, ⟨2⟩, ⟨3⟩] := by
  decide +kernel

theorem refused_dependency_leaves_source_package :
    ∃ m : Model, m.index = (({} : Model).applyAll packagedTypes).index ∧
      (m.addEdge "p/A" "p" .call).1 = .error (.notAType "p" .package) ∧
      (m.addEdge "p/A" "p" .call).2.index = m.index ∧
      (m.addEdge "p/A" "p" .call).2.graph = m.graph ∧
      (m.addEdge "q/C" "p" .call).1 = .error (.notAType "p" .package) ∧
      (m.addEdge "q/C" "p" .call).2.index = (m.index.registerExternal "q/C").2 ∧
      (m.addEdge "q/C" "p" .call).2.graph.edges = m.graph.edges := by
  have refused : ((({} : Model).applyAll packagedTypes).addEdge "p/A" "p" .call).1 =
      .error (.notAType "p" .package) := by decide +kernel
  have refused' : ((({} : Model).applyAll packagedTypes).addEdge "q/C" "p" .call).1 =
      .error (.notAType "p" .package) := by decide +kernel
  have vertex : ((({} : Model).applyAll packagedTypes).index.find? "p/A").map
      (fun e => (({} : Model).applyAll packagedTypes).graph.contains e.handle) = some true := by
    decide +kernel
  have unknown : ((({} : Model).applyAll packagedTypes).index.find? "q/C").isNone = true := by
    decide +kernel
  obtain ⟨-, -, -, -, unchanged, -⟩ :=
    refused_dependency_leaves_source packagedTypes _ rfl "p/A" "p" .call refused
  obtain ⟨-, edges, -, -, -, left⟩ :=
    refused_dependency_leaves_source packagedTypes _ rfl "q/C" "p" .call refused'
  generalize ({} : Model).applyAll packagedTypes = m at *
  obtain ⟨e, found, present⟩ := Option.map_eq_some_iff.mp vertex
  have settled : ¬ m.Arrives "p/A" := by
    intro arrives
    have new := (arrives e found).2
    rw [present] at new
    cases new
  have arrives : m.Arrives "q/C" := by
    intro e found
    rw [found] at unknown
    cases unknown
  obtain ⟨index, graph⟩ := unchanged.mpr settled
  exact ⟨m, rfl, refused, index, graph, refused', (left arrives).1, edges⟩

end Model

end CodeMetrics
