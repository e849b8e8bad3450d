import CodeMetrics.Proofs.Scan.Finish

/-!
# The exported edges

Once a run has ended without a dispute, its exported edges are determined by the classes that it
has accepted and by the references that it has applied: `KeyedEdge.CalledFor` says which edges these
are, and with which usage, and nothing else is exported.

The argument has two halves.  The findings follow the outline of the run, so the edges are a tally
of the dependencies that the outline counts.  And since the accepted classes have distinct keys, the
number of times that a dependency is counted can be read off a single class.
-/

namespace CodeMetrics

/-- The number of applied references that stand for a dependency. -/
def referenceCount (classes : List ClassFacts) (d : Dependency) : Nat :=
  (applied classes).countP fun u => u.dependency = d

/-- The edges that the accepted classes call for.  A usage is a number of 32 bits. -/
def KeyedEdge.CalledFor (classes : List ClassFacts) (e : KeyedEdge) : Prop :=
  e.source ≠ e.target ∧
    match e.kind with
    | .extension =>
      ∃ c ∈ classes, c.key = e.source ∧ c.superclass = some e.target ∧ e.usage = 1
    | .implementation =>
      ∃ c ∈ classes, c.key = e.source ∧ e.target ∈ c.interfaces ∧
        e.usage.toNat = c.interfaces.count e.target % UInt32.size
    | .call | .fieldUse =>
      0 < referenceCount classes e.dependency ∧
        e.usage.toNat = referenceCount classes e.dependency % UInt32.size

/-! ## Counting -/

theorem mem_tally_iff_count {ds : List Dependency} {e : KeyedEdge} :
    e ∈ tally ds ↔
      0 < ds.count e.dependency ∧ e.usage.toNat = ds.count e.dependency % UInt32.size := by
  rw [mem_tally_iff, List.count_pos_iff, ← UInt32.toNat_inj, UInt32.toNat_ofNat']

theorem count_dependencies (classes : List ClassFacts) {d : Dependency}
    (apart : d.source ≠ d.target) :
    (dependencies classes).count d =
      (classes.flatMap ClassFacts.supertypes).count d + referenceCount classes d := by
  rw [dependencies, List.count_filter (by simpa using apart), List.count_append, referenceCount,
    List.count, List.countP_map]
  rfl

theorem not_mem_dependencies_self (classes : List ClassFacts) {d : Dependency}
    (same : d.source = d.target) : d ∉ dependencies classes := by
  intro listed
  have apart := (List.mem_filter.mp listed).2
  simp [same] at apart

/-- A reference is no supertype. -/
theorem referenceCount_eq_zero (classes : List ClassFacts) {d : Dependency}
    (supertype : d.kind = .extension ∨ d.kind = .implementation) :
    referenceCount classes d = 0 := by
  rw [referenceCount, List.countP_eq_zero]
  intro u _ same
  rw [decide_eq_true_eq] at same
  subst same
  rw [Use.dependency] at supertype
  cases h : u.reference <;> simp [h, Reference.edgeKind] at supertype

namespace ClassFacts

variable {c : ClassFacts} {d : Dependency}

/-- A class depends on its superclass by an extension and on its interfaces by implementations. -/
theorem mem_supertypes_iff :
    d ∈ c.supertypes ↔ d.source = c.key ∧
      (d.kind = .extension ∧ c.superclass = some d.target ∨
        d.kind = .implementation ∧ d.target ∈ c.interfaces) := by
  obtain ⟨source, target, kind⟩ := d
  simp only [supertypes, List.mem_append, List.mem_map, Option.mem_toList, Dependency.mk.injEq]
  constructor
  · rintro (⟨t, superclass, rfl, rfl, rfl⟩ | ⟨t, listed, rfl, rfl, rfl⟩)
    · exact ⟨rfl, .inl ⟨rfl, superclass⟩⟩
    · exact ⟨rfl, .inr ⟨rfl, listed⟩⟩
  · rintro ⟨rfl, ⟨rfl, superclass⟩ | ⟨rfl, listed⟩⟩
    · exact .inl ⟨target, superclass, rfl, rfl, rfl⟩
    · exact .inr ⟨target, listed, rfl, rfl, rfl⟩

theorem count_supertypes_extension (c : ClassFacts) (target : String) :
    c.supertypes.count ⟨c.key, target, .extension⟩ = c.superclass.toList.count target := by
  have injective : Function.Injective fun t => (⟨c.key, t, .extension⟩ : Dependency) := by
    intro t t' same
    simpa using same
  have none : (⟨c.key, target, .extension⟩ : Dependency) ∉
      c.interfaces.map (⟨c.key, ·, .implementation⟩) := by simp
  rw [supertypes, List.count_append, List.count_eq_zero_of_not_mem none, Nat.add_zero]
  exact List.count_map_of_injective _ _ injective target

theorem count_supertypes_implementation (c : ClassFacts) (target : String) :
    c.supertypes.count ⟨c.key, target, .implementation⟩ = c.interfaces.count target := by
  have injective : Function.Injective fun t => (⟨c.key, t, .implementation⟩ : Dependency) := by
    intro t t' same
    simpa using same
  have none : (⟨c.key, target, .implementation⟩ : Dependency) ∉
      c.superclass.toList.map (⟨c.key, ·, .extension⟩) := by simp
  rw [supertypes, List.count_append, List.count_eq_zero_of_not_mem none, Nat.zero_add]
  exact List.count_map_of_injective _ _ injective target

/-- A supertype is no reference. -/
theorem count_flatMap_supertypes_eq_zero (classes : List ClassFacts)
    (reference : d.kind = .call ∨ d.kind = .fieldUse) :
    (classes.flatMap supertypes).count d = 0 := by
  refine List.count_eq_zero_of_not_mem fun member => ?_
  obtain ⟨c, -, member⟩ := List.mem_flatMap.mp member
  rcases (mem_supertypes_iff.mp member).2 with ⟨kind, -⟩ | ⟨kind, -⟩ <;> simp [kind] at reference

/-- Where keys are distinct, the supertypes of a class are counted in that class only, since a
dependency on a supertype has the class as its source. -/
theorem count_flatMap_supertypes {classes : List ClassFacts}
    (distinct : (classes.map ClassFacts.key).Nodup) (listed : c ∈ classes)
    (source : d.source = c.key) :
    (classes.flatMap supertypes).count d = c.supertypes.count d := by
  induction classes with
  | nil => cases listed
  | cons first rest ih =>
      rw [List.map_cons, List.nodup_cons] at distinct
      rw [List.flatMap_cons, List.count_append]
      rcases List.mem_cons.mp listed with rfl | later
      · have elsewhere : d ∉ rest.flatMap supertypes := by
          intro member
          obtain ⟨c', listed', member⟩ := List.mem_flatMap.mp member
          refine distinct.1 ?_
          rw [← source, (mem_supertypes_iff.mp member).1]
          exact List.mem_map_of_mem listed'
        rw [List.count_eq_zero_of_not_mem elsewhere, Nat.add_zero]
      · have other : d ∉ first.supertypes := by
          intro member
          refine distinct.1 ?_
          rw [← (mem_supertypes_iff.mp member).1, source]
          exact List.mem_map_of_mem later
        rw [List.count_eq_zero_of_not_mem other, Nat.zero_add, ih distinct.2 later]

end ClassFacts

/-- A dependency on a supertype is counted in the class that it comes from.  Keys are distinct, so
there is only one such class. -/
theorem counted_supertypes_iff {classes : List ClassFacts} {d : Dependency}
    (distinct : (classes.map ClassFacts.key).Nodup) (usage : Nat) :
    0 < (classes.flatMap ClassFacts.supertypes).count d ∧
        usage = (classes.flatMap ClassFacts.supertypes).count d % UInt32.size ↔
      ∃ c ∈ classes, c.key = d.source ∧ d ∈ c.supertypes ∧
        usage = c.supertypes.count d % UInt32.size := by
  constructor
  · rintro ⟨counted, uses⟩
    obtain ⟨c, listed, member⟩ := List.mem_flatMap.mp (List.count_pos_iff.mp counted)
    have source := (ClassFacts.mem_supertypes_iff.mp member).1
    rw [ClassFacts.count_flatMap_supertypes distinct listed source] at uses
    exact ⟨c, listed, source.symm, member, uses⟩
  · rintro ⟨c, listed, source, member, uses⟩
    rw [ClassFacts.count_flatMap_supertypes distinct listed source.symm]
    exact ⟨List.count_pos_iff.mpr member, uses⟩

/-- The edges of the dependencies of some classes are the ones that the classes call for: with the
number of times that they occur among its supertypes or its applied references. -/
theorem mem_tally_dependencies_iff {classes : List ClassFacts}
    (distinct : (classes.map ClassFacts.key).Nodup) {e : KeyedEdge} :
    e ∈ tally (dependencies classes) ↔ e.CalledFor classes := by
  obtain ⟨source, target, kind, usage⟩ := e
  rw [mem_tally_iff_count, KeyedEdge.dependency, KeyedEdge.CalledFor]
  by_cases same : source = target
  · refine iff_of_false (fun counted => ?_) fun called => called.1 same
    exact not_mem_dependencies_self classes same (List.count_pos_iff.mp counted.1)
  -- by its kind, a dependency is either on supertypes or on references
  rw [count_dependencies classes same, and_iff_right same]
  cases kind with
  | extension =>
      rw [referenceCount_eq_zero classes (.inl rfl), Nat.add_zero, counted_supertypes_iff distinct]
      refine exists_congr fun c => and_congr_right fun _ => and_congr_right fun key => ?_
      subst key
      rw [ClassFacts.mem_supertypes_iff, c.count_supertypes_extension]
      simp only [reduceCtorEq, false_and, or_false, true_and]
      refine and_congr_right fun superclass => ?_
      rw [superclass, ← UInt32.toNat_inj]
      simp
  | implementation =>
      rw [referenceCount_eq_zero classes (.inr rfl), Nat.add_zero, counted_supertypes_iff distinct]
      refine exists_congr fun c => and_congr_right fun _ => and_congr_right fun key => ?_
      subst key
      rw [ClassFacts.mem_supertypes_iff, c.count_supertypes_implementation]
      simp only [reduceCtorEq, false_and, false_or, true_and]
  | call =>
      rw [ClassFacts.count_flatMap_supertypes_eq_zero classes (.inl rfl), Nat.zero_add]
      rfl
  | fieldUse =>
      rw [ClassFacts.count_flatMap_supertypes_eq_zero classes (.inr rfl), Nat.zero_add]
      rfl

/-! ## The edges of a run -/

namespace Analysis

variable {σ : Type}

/-- **A run without external visitors ends, and unless a compiled fact was refused, its exported
edges are the ones that the accepted classes call for**: each of them once, and no others. -/
theorem exported_edges_exact (config : Config) (sources : List SourceFile)
    (artifacts : List Artifact) :
    ∃ a, run config ([] : List (External σ × Subscription)) sources artifacts = .ok a ∧
      ((∀ i ∈ a.findings.report.issues.toList, i.isDispute = false) →
        (a.keyedEdges.map KeyedEdge.dependency).Nodup ∧
          ∀ e, e ∈ a.keyedEdges ↔
            e.CalledFor (accepted (artifacts.flatMap Artifact.classes))) := by
  obtain ⟨a, declared, progress, t, ran, -, -, following, closes⟩ :=
    run_follows (σ := σ) config sources artifacts
  refine ⟨a, ran, fun undisputed => ?_⟩
  have quiet : ¬ t.findings.Disputed := by
    rintro ⟨i, listed, dispute⟩
    have report : a.findings.report = t.findings.report := closes.report
    rw [undisputed i (report ▸ listed)] at dispute
    cases dispute
  have edges := (keyedEdges_of_closes closes).trans (following.tracks.reflects quiet).edges
  have counts := Outline.counted_scan declared.owningProject declared.index.declarations artifacts
  refine ⟨by rw [edges]; exact nodup_dependency_tally _, fun e => ?_⟩
  rw [edges, mem_tally_iff_count, counts.count_eq, ← mem_tally_iff_count]
  exact mem_tally_dependencies_iff (nodup_map_firstBy ClassFacts.key [] _)

/-- A class with repeated interfaces, a repeated site and a repeated method, which is decoded once
more after the artifact has failed. -/
def repeatedFacts : List Artifact :=
  let body : List Reference :=
    [.call ⟨1, "p/B", "f()V"⟩, .call ⟨1, "p/C", "g()V"⟩, .call ⟨2, "p/B", "g()V"⟩,
      .access ⟨3, "p/A", "x"⟩]
  let class₁ : ClassFacts :=
    { key := "p/A", superclass := some "p/B", interfaces := ["p/I", "p/A", "p/I"], fields := [⟨"x"⟩]
      methods := [⟨"m()V", body⟩, ⟨"m()V", [.access ⟨2, "p/C", "y"⟩, .access ⟨4, "p/C", "y"⟩]⟩] }
  [{ path := "one.jar", classes := [class₁], error := some (.malformed "truncated") },
    { path := "two.jar", classes := [{ class₁ with superclass := some "p/C" }], error := none }]

theorem exported_edges_exact_repeatedFacts :
    ∃ a, run {} ([] : List (External Unit × Subscription)) [] repeatedFacts = .ok a ∧
      (∀ i ∈ a.findings.report.issues.toList, i.isDispute = false) ∧
      (∀ e, e ∈ a.keyedEdges ↔
        e.CalledFor (accepted (repeatedFacts.flatMap Artifact.classes))) ∧
      a.keyedEdges = [⟨"p/A", "p/B", .extension, 1⟩, ⟨"p/A", "p/I", .implementation, 2⟩,
        ⟨"p/A", "p/B", .call, 2⟩, ⟨"p/A", "p/C", .fieldUse, 1⟩] := by
  obtain ⟨a, ran, edges⟩ := exported_edges_exact (σ := Unit) {} [] repeatedFacts
  have evaluated :
      (run {} ([] : List (External Unit × Subscription)) [] repeatedFacts).toOption.map
        (fun a => (a.findings.report.issues.toList.all (!·.isDispute), a.keyedEdges)) =
        some (true, [⟨"p/A", "p/B", .extension, 1⟩, ⟨"p/A", "p/I", .implementation, 2⟩,
          ⟨"p/A", "p/B", .call, 2⟩, ⟨"p/A", "p/C", .fieldUse, 1⟩]) := by
    decide +kernel
  rw [ran] at evaluated
  simp only [Except.toOption, Option.map_some, Option.some.injEq, Prod.mk.injEq, List.all_eq_true,
    Bool.not_eq_true'] at evaluated
  exact ⟨a, ran, evaluated.1, (edges evaluated.1).2, evaluated.2⟩

end Analysis

end CodeMetrics
