import CodeMetrics.Proofs.Scan.Sources

/-!
# The metrics at the end of a run

After the scans every type and every placeholder becomes a vertex, and gets four more measures:
depth of inheritance, number of children, and the two couplings.  Each is attached in a loop over
all of them.  `Findings.Stamps` says what such a loop does: every element in question is changed in
the same way, once, and nothing else is.

The loops fail only on an unknown element, so on steady findings they never do.
-/

namespace CodeMetrics

open Std (ExtTreeMap)

/-- The listed elements are exactly those that are types or placeholders. -/
theorem Index.Coherent.mem_typeLevel_iff {ix : Index} (coherent : ix.Coherent) {h : Handle} :
    h ∈ ix.typeLevel.map Element.handle ↔ ix.IsTypeLevel h := by
  rw [List.mem_map]
  constructor
  · rintro ⟨e, listed, rfl⟩
    obtain ⟨found, level⟩ := coherent.mem_search_iff.mp listed
    exact ⟨e.kind, Index.kind?_of_get? found, level⟩
  · rintro ⟨kind, is, level⟩
    obtain ⟨e, found, rfl⟩ := Option.map_eq_some_iff.mp is
    have same := coherent.handle_eq found
    subst same
    exact ⟨e, coherent.mem_search_iff.mpr ⟨found, level⟩, rfl⟩

theorem Index.Coherent.nodup_handles {ix : Index} (coherent : ix.Coherent) :
    (ix.elements.toList.map Element.handle).Nodup := by
  rw [List.Nodup, List.pairwise_map]
  refine coherent.pairwise_elements.imp ?_
  intro a b before same
  rw [same] at before
  exact Nat.lt_irrefl _ before

theorem Index.Coherent.nodup_handle_search {ix : Index} (coherent : ix.Coherent)
    (test : Element → Bool) : ((ix.search test).map Element.handle).Nodup :=
  coherent.nodup_handles.sublist (List.filter_sublist.map Element.handle)

theorem Index.Coherent.nodup_typeLevel {ix : Index} (coherent : ix.Coherent) :
    (ix.typeLevel.map Element.handle).Nodup :=
  coherent.nodup_handle_search _

/-! ## Vertices for all types -/

namespace Graph

variable {g : Graph} {ix : Index}

/-- Afterwards all types and placeholders are vertices, besides those that were. -/
theorem contains_addTypes (g : Graph) (ix : Index) (h : Handle) :
    (g.addTypes ix).contains h = true ↔
      h ∈ ix.typeLevel.map Element.handle ∨ g.contains h = true := by
  unfold addTypes
  induction ix.typeLevel generalizing g with
  | nil => simp
  | cons e rest ih =>
      rw [List.foldl_cons, ih, contains_addVertex, List.map_cons, List.mem_cons, Bool.or_eq_true,
        beq_iff_eq, eq_comm (a := h), or_left_comm, or_assoc]

/-- Vertices without edges change nothing that is exported. -/
theorem keyedEdges_addTypes (g : Graph) (ix : Index) :
    (g.addTypes ix).keyedEdges ix = g.keyedEdges ix := by
  rw [keyedEdges_eq, keyedEdges_eq, edges_addTypes]

/-- The vertices are the types and the placeholders. -/
theorem mem_vertices_addTypes (sound : g.Sound) (founded : g.FoundedOn ix) (coherent : ix.Coherent)
    {h : Handle} : h ∈ (g.addTypes ix).vertices.toList ↔ ix.IsTypeLevel h := by
  rw [(sound.addTypes ix).mem_vertices, contains_addTypes, coherent.mem_typeLevel_iff]
  exact or_iff_left_of_imp (founded h)

end Graph

/-! ## Loops over elements -/

namespace Findings

variable {f f' f'' : Findings} {member : Handle → Prop}
  {update update' : Handle → ExtTreeMap String Measure → ExtTreeMap String Measure}

/-- The measures of some elements are updated, and nothing else changes. -/
structure Stamps (member : Handle → Prop)
    (update : Handle → ExtTreeMap String Measure → ExtTreeMap String Measure) (f f' : Findings) :
    Prop extends Remeasures f f' where
  stamped : ∀ {h : Handle}, member h → f'.index.measuresOf h = update h (f.index.measuresOf h)
  untouched : ∀ {h : Handle}, ¬ member h → f'.index.measuresOf h = f.index.measuresOf h

namespace Stamps

theorem trans (first : f.Stamps member update f') (second : f'.Stamps member update' f'') :
    f.Stamps member (fun h m => update' h (update h m)) f'' where
  toRemeasures := first.toRemeasures.trans second.toRemeasures
  stamped inside := by rw [second.stamped inside, first.stamped inside]
  untouched outside := by rw [second.untouched outside, first.untouched outside]

theorem congr {member' : Handle → Prop} (stamps : f.Stamps member update f')
    (same : ∀ h, member' h ↔ member h) : f.Stamps member' update f' where
  toRemeasures := stamps.toRemeasures
  stamped inside := stamps.stamped ((same _).mp inside)
  untouched outside := stamps.untouched (mt (same _).mpr outside)

/-- Messages do not matter. -/
theorem say (stamps : f.Stamps member update f') (level : Level) (message : String) :
    f.Stamps member update (f'.say level message) where
  toRemeasures := stamps.toRemeasures.trans (.say f' level message)
  stamped := stamps.stamped
  untouched := stamps.untouched

/-- A message before a loop is not seen in what the loop attaches. -/
theorem after_say {level : Level} {message : String}
    (stamps : (f.say level message).Stamps member update f') : f.Stamps member update f' where
  toRemeasures := (Remeasures.say f level message).trans stamps.toRemeasures
  stamped := stamps.stamped
  untouched := stamps.untouched

end Stamps

/-- A metric is attached to one element. -/
theorem attachMetric_stamps {h : Handle} (known : f.index.Knows h) (metric : Metric)
    (value : Handle → Measure) :
    ∃ f', f.attachMetric h metric (value h) = .ok f' ∧
      f.Stamps (· = h) (fun g m => m.insert metric.name (value g)) f' := by
  refine ⟨_, attachMetric_of_knows known metric (value h), .measured f known _ _, ?_, ?_⟩
  · rintro g rfl
    exact Index.measuresOf_measured_self _ _ _ _ known
  · intro g other
    exact Index.measuresOf_measured_of_ne _ _ _ _ _ other

/-- A loop that updates one element in each round updates all of them, each once.  That the handles
differ is needed here: an element that came twice would be updated twice. -/
theorem foldlM_stamps {α : Type} {op : Findings → α → Except IndexError Findings}
    {handle : α → Handle} (l : List α) (distinct : (l.map handle).Nodup)
    (known : ∀ a ∈ l, f.index.Knows (handle a))
    (round : ∀ f₁ a, f.Remeasures f₁ → f₁.index.Knows (handle a) →
      ∃ f₂, op f₁ a = .ok f₂ ∧ f₁.Stamps (· = handle a) update f₂) :
    ∃ f', l.foldlM op f = .ok f' ∧ f.Stamps (· ∈ l.map handle) update f' := by
  induction l generalizing f with
  | nil =>
      refine ⟨f, rfl, .refl f, ?_, fun _ => rfl⟩
      intro h impossible
      cases impossible
  | cons a rest ih =>
      rw [List.map_cons, List.nodup_cons] at distinct
      obtain ⟨f₁, first, stamps⟩ := round f a (.refl f) (known a List.mem_cons_self)
      obtain ⟨f₂, others, stamps'⟩ := ih distinct.2
        (fun b listed => stamps.knows (known b (List.mem_cons_of_mem a listed)))
        (fun f₂ b remeasures knows => round f₂ b (stamps.toRemeasures.trans remeasures) knows)
      refine ⟨f₂, ?_, stamps.toRemeasures.trans stamps'.toRemeasures, ?_, ?_⟩
      · rw [List.foldlM_cons, first]
        exact others
      · intro h listed
        rcases List.mem_cons.mp listed with rfl | later
        · -- stamped now, and not listed again
          rw [stamps'.untouched distinct.1, stamps.stamped rfl]
        · -- stamped later, and not now
          have other : h ≠ handle a := by
            rintro rfl
            exact distinct.1 later
          rw [stamps'.stamped later, stamps.untouched other]
      · intro h unlisted
        rw [List.map_cons, List.mem_cons, not_or] at unlisted
        rw [stamps'.untouched unlisted.2, stamps.untouched unlisted.1]

/-- A loop over all types and placeholders. -/
theorem foldlM_typeLevel_stamps {op : Findings → Element → Except IndexError Findings}
    (coherent : f.index.Coherent)
    (round : ∀ f₁ e, f.Remeasures f₁ → f₁.index.Knows e.handle →
      ∃ f₂, op f₁ e = .ok f₂ ∧ f₁.Stamps (· = e.handle) update f₂) :
    ∃ f', f.index.typeLevel.foldlM op f = .ok f' ∧ f.Stamps f.index.IsTypeLevel update f' := by
  have known : ∀ e ∈ f.index.typeLevel, f.index.Knows e.handle := by
    intro e listed
    exact .of_get? (coherent.mem_search_iff.mp listed).1
  obtain ⟨f', run, stamps⟩ := foldlM_stamps f.index.typeLevel coherent.nodup_typeLevel known round
  exact ⟨f', run, stamps.congr fun h => coherent.mem_typeLevel_iff.symm⟩

/-! ## The four metrics -/

/-- The depth of inheritance is attached to all types and placeholders.  Reporting a cycle writes to
the journal only. -/
theorem attachDepths_stamps (coherent : f.index.Coherent) (i : Inheritance) :
    ∃ f', f.attachDepths i = .ok f' ∧
      f.Stamps f.index.IsTypeLevel (fun h m => m.insert Metric.dit.name (i.depth h)) f' := by
  have round (f₁ : Findings) (e : Element) (_ : f.Remeasures f₁) (known : f₁.index.Knows e.handle) :
      ∃ f₂, attachDepth i f₁ e = .ok f₂ ∧
        f₁.Stamps (· = e.handle) (fun h m => m.insert Metric.dit.name (i.depth h)) f₂ := by
    simp only [attachDepth]
    split
    · -- the warning about a cycle comes first
      have said := (Remeasures.say f₁ .warn s!"Inheritance cycle through {e.key}").knows known
      obtain ⟨f₂, attached, stamps⟩ := attachMetric_stamps said .dit i.depth
      exact ⟨f₂, attached, stamps.after_say⟩
    · exact attachMetric_stamps known .dit i.depth
  obtain ⟨f', run, stamps⟩ := foldlM_typeLevel_stamps coherent round
  refine ⟨f'.say .debug "DIT computed", ?_, stamps.say _ _⟩
  rw [attachDepths, run]
  rfl

/-- The number of children is attached to all types and placeholders. -/
theorem attachChildCounts_stamps (coherent : f.index.Coherent) (i : Inheritance) :
    ∃ f', f.attachChildCounts i = .ok f' ∧
      f.Stamps f.index.IsTypeLevel
        (fun h m => m.insert Metric.noc.name (.ofCount (i.childCount h))) f' := by
  obtain ⟨f', run, stamps⟩ := foldlM_typeLevel_stamps coherent fun f₁ e _ known =>
    attachMetric_stamps (f := f₁) known .noc fun h => .ofCount (i.childCount h)
  refine ⟨f'.say .debug "NOC computed", ?_, stamps.say _ _⟩
  rw [attachChildCounts, run]
  rfl

/-- The two couplings of a vertex among its measures. -/
def couple (g : Graph) (h : Handle) (m : ExtTreeMap String Measure) : ExtTreeMap String Measure :=
  (m.insert Metric.ca.name (.ofCount (g.afferent h))).insert Metric.ce.name
    (.ofCount (g.efferent h))

/-- Both couplings are attached to all vertices.  They are counted in the graph as it is before, and
attaching leaves it as it is. -/
theorem attachCouplings_stamps (nodup : f.graph.vertices.toList.Nodup)
    (known : ∀ h ∈ f.graph.vertices.toList, f.index.Knows h) :
    ∃ f', f.attachCouplings = .ok f' ∧
      f.Stamps (· ∈ f.graph.vertices.toList) (couple f.graph) f' := by
  have round (f₁ : Findings) (h : Handle) (remeasures : f.Remeasures f₁)
      (known : f₁.index.Knows h) :
      ∃ f₂, f₁.attachCoupling h = .ok f₂ ∧ f₁.Stamps (· = h) (couple f.graph) f₂ := by
    obtain ⟨f₂, first, stamps⟩ := attachMetric_stamps known .ca fun h =>
      .ofCount (f.graph.afferent h)
    obtain ⟨f₃, second, stamps'⟩ := attachMetric_stamps (stamps.knows known) .ce fun h =>
      .ofCount (f.graph.efferent h)
    refine ⟨f₃, ?_, stamps.trans stamps'⟩
    rw [attachCoupling, remeasures.graph, first]
    show f₂.attachMetric h .ce (.ofCount (f₂.graph.efferent h)) = .ok f₃
    rw [stamps.graph, remeasures.graph]
    exact second
  have distinct : (f.graph.vertices.toList.map fun h => h).Nodup := by rwa [List.map_id']
  obtain ⟨f', run, stamps⟩ := foldlM_stamps f.graph.vertices.toList distinct known round
  exact ⟨f', run, stamps.congr fun h => by rw [List.map_id']⟩

end Findings

/-! ## The end of a run -/

namespace Analysis

variable {f : Findings}

/-- The metrics that are attached at the end of a run, to types and placeholders. -/
def closingMetrics : List Metric := [.dit, .noc, .ca, .ce]

/-- The measures that types and placeholders get at the end of a run. -/
def closingMeasures (i : Inheritance) (g : Graph) (h : Handle) (m : ExtTreeMap String Measure) :
    ExtTreeMap String Measure :=
  Findings.couple g h ((m.insert Metric.dit.name (i.depth h)).insert Metric.noc.name
    (.ofCount (i.childCount h)))

theorem noc_closingMeasures (i : Inheritance) (g : Graph) (h : Handle)
    (m : ExtTreeMap String Measure) :
    (closingMeasures i g h m)[Metric.noc.name]? = some (.ofCount (i.childCount h)) := by
  have first : compare Metric.ce.name Metric.noc.name ≠ .eq := by decide
  have second : compare Metric.ca.name Metric.noc.name ≠ .eq := by decide
  rw [closingMeasures, Findings.couple, ExtTreeMap.getElem?_insert, if_neg first,
    ExtTreeMap.getElem?_insert, if_neg second, ExtTreeMap.getElem?_insert_self]

/-- Four measures are added, or replaced where a visitor has attached them before. -/
theorem mem_closingMeasures_iff {i : Inheritance} {g : Graph} {h : Handle}
    {m : ExtTreeMap String Measure} {name : String} :
    name ∈ closingMeasures i g h m ↔
      name ∈ closingMetrics.map Metric.name ∨ name ∈ m := by
  simp only [closingMeasures, closingMetrics, Findings.couple, ExtTreeMap.mem_insert,
    Std.LawfulEqOrd.compare_eq_iff_eq, List.map_cons, List.map_nil, List.mem_cons,
    List.not_mem_nil, or_false]
  tauto

/-- Steady findings stay so when all types become vertices. -/
theorem addTypes_steady (steady : f.Steady) : (f.withModel f.toModel.addTypes).Steady where
  index := steady.index
  graph := steady.graph.addTypes f.index
  founded := by
    intro h vertex
    have listed := (steady.graph.addTypes f.index).mem_vertices.mpr vertex
    exact (Graph.mem_vertices_addTypes steady.graph steady.founded
      steady.index.toCoherent).mp listed

/-- From `f` to `f'` the vertices for all types were added and the last metrics attached. -/
abbrev Closes (f f' : Findings) : Prop :=
  (f.withModel f.toModel.addTypes).Stamps f.index.IsTypeLevel
    (closingMeasures f.inheritance (f.graph.addTypes f.index)) f'

/-- On steady findings the last metrics are computed for all types and placeholders, and there is no
error: after the first step all of them are vertices, and all vertices are known. -/
theorem measure_closes (steady : f.Steady) : ∃ f', measure f = .ok f' ∧ Closes f f' := by
  have steady₀ := addTypes_steady steady
  obtain ⟨f₁, depths, stamps₁⟩ :=
    Findings.attachDepths_stamps steady₀.index.toCoherent f.inheritance
  have steady₁ := stamps₁.steady steady₀
  obtain ⟨f₂, counts, stamps₂⟩ :=
    Findings.attachChildCounts_stamps steady₁.index.toCoherent f.inheritance
  have steady₂ := stamps₂.steady steady₁
  obtain ⟨f₃, couplings, stamps₃⟩ := Findings.attachCouplings_stamps steady₂.graph.nodup_vertices
    fun h vertex => steady₂.founded.knows (steady₂.graph.mem_vertices.mp vertex)
  -- the loops range over the same elements, since nothing but measures changes between them
  have level (h : Handle) : f₁.index.IsTypeLevel h ↔ f.index.IsTypeLevel h := by
    rw [Index.IsTypeLevel, stamps₁.kinds]
    rfl
  have graph : f₂.graph = f.graph.addTypes f.index := stamps₂.graph.trans stamps₁.graph
  have vertices (h : Handle) : h ∈ f₂.graph.vertices.toList ↔ f.index.IsTypeLevel h := by
    rw [graph, Graph.mem_vertices_addTypes steady.graph steady.founded steady.index.toCoherent]
  have all := (stamps₁.trans (stamps₂.congr fun h => (level h).symm)).trans
    (stamps₃.congr fun h => (vertices h).symm)
  rw [graph] at all
  refine ⟨_, ?_, all.say .info "Post-pass metrics done in _ms"⟩
  unfold measure
  show (Findings.attachDepths _ f.inheritance >>= _) = _
  rw [depths]
  show (f₁.attachChildCounts f.inheritance >>= _) = _
  rw [counts]
  show (f₂.attachCouplings >>= _) = _
  rw [couplings]
  rfl

/-- The last metrics leave the exported edges as they are. -/
theorem keyedEdges_of_closes {a : Analysis} (closes : Closes f a.findings) :
    a.keyedEdges = f.graph.keyedEdges f.index :=
  closes.keyedEdges.trans (Graph.keyedEdges_addTypes f.graph f.index)

variable {σ : Type} {s : Session σ}

/-- The last metrics never stop a run. -/
theorem finish_ends (steady : s.findings.Steady) :
    (finish : Scanning σ Unit).Ends s fun _ t => Closes s.findings t.findings := by
  obtain ⟨f', run, closes⟩ := measure_closes steady
  unfold finish
  refine .findings_bind ?_
  rw [run]
  exact .alter (closes.say _ _)

/-- **Without external visitors every run ends**, and what it leaves behind follows the outline of
its artifacts, with the last metrics attached. -/
theorem run_follows (config : Config) (sources : List SourceFile) (artifacts : List Artifact) :
    ∃ (a : Analysis) (declared : Findings) (progress : BytecodeScan.Progress) (t : Session σ),
      run config ([] : List (External σ × Subscription)) sources artifacts = .ok a ∧
      SourceScan.Declared config declared ∧
      (sources = [] → declared.index = {} ∧ declared.report = {}) ∧
      BytecodeScan.Following declared.owningProject declared
        (Outline.scan declared.owningProject
          { deeds := declared.index.declarations.map .declare } artifacts) progress t ∧
      Closes t.findings a.findings := by
  obtain ⟨⟨⟩, t, scanned, declared, progress, facts, empty, following⟩ :=
    scans_follow (σ := σ) config sources artifacts
  obtain ⟨⟨⟩, u, finished, closes⟩ := finish_ends following.steady
  refine ⟨⟨u.findings⟩, declared, progress, t, ?_, facts, empty, following, closes⟩
  have whole : (scanning sources artifacts).runOn
      (start config ([] : List (External σ × Subscription))) = (.ok (), u) := by
    have regroup : (scanning sources artifacts : Scanning σ Unit) =
        (SourceScan.run sources >>= fun _ => BytecodeScan.run artifacts) >>= fun _ => finish := by
      rw [bind_assoc]
      rfl
    rw [regroup, Scanning.runOn_bind_of_ok scanned, finished]
  rw [run, runSession, whole]
  rfl

end Analysis

end CodeMetrics
