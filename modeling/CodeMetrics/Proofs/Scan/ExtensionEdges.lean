import CodeMetrics.Proofs.Measure.Depth
import CodeMetrics.Proofs.Scan.Lineage
import Mathlib.Algebra.BigOperators.Group.List.Basic
import Mathlib.Algebra.GroupWithZero.Nat

/-!
# Superclasses and extension edges

Inheritance is kept twice, as a record of superclasses and as extension edges of the graph.  The
number of children is read off the records; this module says that the edges give the same number.

* The other class that is recorded as the superclass of a type is the one its extension leads to.
  Every extension was counted once, and no type has two.
* So the number of children of a type is the number of the extensions that lead to it, and over all
  types and placeholders these numbers sum up to the number of extensions.

Only what visitors attach can get in between.  A measure of the same name on a method or a package
stays there, and a sum over everything that has such a measure is no longer the number of
extensions.
-/

namespace CodeMetrics

open Scanning Session

variable {σ : Type}

/-! ## Sums over handles -/

theorem sum_indicator (hs : List Handle) (target : Handle) :
    (hs.map fun h => if target == h then 1 else 0).sum = hs.count target := by
  induction hs with
  | nil => rfl
  | cons h rest ih =>
      rw [List.map_cons, List.sum_cons, ih, List.count_cons, Nat.add_comm, BEq.comm]

/-- Counting by targets counts every edge once. -/
theorem sum_countP_target {hs : List Handle} (nodup : hs.Nodup) {edges : List Edge}
    (inside : ∀ e ∈ edges, e.target ∈ hs) :
    (hs.map fun h => edges.countP (·.target == h)).sum = edges.length := by
  induction edges with
  | nil => simp
  | cons e rest ih =>
      obtain ⟨first, others⟩ := List.forall_mem_cons.mp inside
      have once : hs.count e.target = 1 := List.count_eq_one_of_mem nodup first
      simp only [List.countP_cons, List.sum_map_add, sum_indicator, ih others, once,
        List.length_cons]

/-! ## Lineage read both ways -/

namespace Findings

variable {f : Findings}

/-- The other types whose recorded superclass is `p`. -/
def subclasses (f : Findings) (p : Handle) : List Handle :=
  (f.superclasses.toList.filter fun entry => entry.2 == some p && entry.1 != p).map Prod.fst

/-- The subclasses of a type are recorded with it as their superclass, and are not the type itself.
-/
theorem mem_subclasses_iff {p h : Handle} :
    h ∈ f.subclasses p ↔ f.superclass? h = some p ∧ h ≠ p := by
  have record : f.superclass? h = some p ↔ (h, some p) ∈ f.superclasses.toList := by
    rw [Std.ExtTreeMap.mem_toList_iff_getElem?_eq_some, superclass?, Option.join_eq_some_iff]
  rw [record, subclasses, List.mem_map]
  constructor
  · rintro ⟨⟨child, superclass⟩, kept, rfl⟩
    obtain ⟨listed, passes⟩ := List.mem_filter.mp kept
    simp only [Bool.and_eq_true, beq_iff_eq, bne_iff_ne] at passes
    obtain ⟨rfl, other⟩ := passes
    exact ⟨listed, other⟩
  · rintro ⟨listed, other⟩
    exact ⟨(h, some p), List.mem_filter.mpr ⟨listed, by simpa using other⟩, rfl⟩

theorem nodup_subclasses (f : Findings) (p : Handle) : (f.subclasses p).Nodup := by
  rw [subclasses, List.Nodup, List.pairwise_map]
  refine (f.superclasses.distinct_keys_toList.filter _).imp ?_
  intro a b apart same
  exact apart (Std.LawfulEqOrd.compare_eq_iff_eq.mpr same)

/-- The number of extensions that lead to an element. -/
def extensionsInto (f : Findings) (h : Handle) : Nat :=
  (f.graph.incoming h).countP (·.kind == .extension)

/-- Over elements that are all different, every extension is counted at its target. -/
theorem sum_extensionsInto (sound : f.graph.Sound) {es : List Element}
    (nodup : (es.map Element.handle).Nodup)
    (inside : ∀ e ∈ f.graph.extensions, e.target ∈ es.map Element.handle) :
    (es.map fun e => f.extensionsInto e.handle).sum = f.graph.extensions.length := by
  rw [← sum_countP_target nodup inside, List.map_map]
  refine congrArg List.sum (List.map_congr_left fun e _ => ?_)
  rw [Function.comp_apply, extensionsInto, sound.incoming_eq, Graph.extensions, List.countP_filter,
    List.countP_filter]
  exact List.countP_congr fun e' _ => by rw [Bool.and_comm]

/-- No extension leads to anything but a type or a placeholder. -/
theorem isTypeLevel_target (sound : f.toModel.Sound) {e : Edge}
    (listed : e ∈ f.graph.extensions) : f.index.IsTypeLevel e.target :=
  sound.founded _ (sound.graph.ends_known (Graph.mem_extensions_iff.mp listed).1).2

theorem extensionsInto_eq_zero (sound : f.toModel.Sound) {h : Handle}
    (low : ¬ f.index.IsTypeLevel h) : f.extensionsInto h = 0 := by
  rw [extensionsInto, sound.graph.incoming_eq, List.countP_eq_zero]
  intro e entering extension
  obtain ⟨listed, target⟩ := List.mem_filter.mp entering
  have level := isTypeLevel_target sound
    (Graph.mem_extensions_iff.mpr ⟨listed, beq_iff_eq.mp extension⟩)
  rw [beq_iff_eq.mp target] at level
  exact low level

namespace Lineage

variable {types : List Handle}

/-- The recorded superclass is the one that the extension leads to. -/
theorem superclass?_iff (lineage : f.Lineage types) {t p : Handle} (other : t ≠ p) :
    f.superclass? t = some p ↔
      ∃ e ∈ f.graph.edges.toList, e.source = t ∧ e.target = p ∧ e.kind = .extension := by
  constructor
  · intro above
    have listed : (⟨t, p, .extension, 1⟩ : Edge) ∈ f.graph.extensions :=
      (lineage.extension_iff _).mpr ⟨rfl, rfl, above, other.symm⟩
    exact ⟨_, (Graph.mem_extensions_iff.mp listed).1, rfl, rfl, rfl⟩
  · rintro ⟨e, listed, rfl, rfl, kind⟩
    exact ((lineage.extension_iff e).mp (Graph.mem_extensions_iff.mpr ⟨listed, kind⟩)).2.2.1

theorem usage_eq (lineage : f.Lineage types) {e : Edge} (listed : e ∈ f.graph.edges.toList)
    (kind : e.kind = .extension) : e.usage = 1 :=
  ((lineage.extension_iff e).mp (Graph.mem_extensions_iff.mpr ⟨listed, kind⟩)).2.1

/-- An extension is known by its source. -/
theorem extension_unique (lineage : f.Lineage types) {e e' : Edge} (listed : e ∈ f.graph.extensions)
    (listed' : e' ∈ f.graph.extensions) (same : e.source = e'.source) : e = e' := by
  obtain ⟨kind, usage, above, -⟩ := (lineage.extension_iff e).mp listed
  obtain ⟨kind', usage', above', -⟩ := (lineage.extension_iff e').mp listed'
  have target : e.target = e'.target := by
    rw [same, above', Option.some.injEq] at above
    exact above.symm
  obtain ⟨source, target, kind, usage⟩ := e
  obtain ⟨source', target', kind', usage'⟩ := e'
  simp only at *
  simp [*]

theorem nodup_source_extensions (lineage : f.Lineage types) (sound : f.graph.Sound) :
    (f.graph.extensions.map Edge.source).Nodup := by
  have nodup : f.graph.extensions.Nodup := sound.nodup_links.of_map.filter _
  exact nodup.map_on fun e listed e' listed' same => lineage.extension_unique listed listed' same

theorem length_outgoing_le (lineage : f.Lineage types) (sound : f.graph.Sound) (t : Handle) :
    ((f.graph.outgoing t).filter (·.kind == .extension)).length ≤ 1 := by
  have swapped : (f.graph.outgoing t).filter (·.kind == .extension) =
      f.graph.extensions.filter (·.source == t) := by
    rw [sound.outgoing_eq, Graph.extensions, List.filter_comm]
  have counted := lineage.nodup_source_extensions sound
  rw [List.nodup_iff_count_le_one] at counted
  have once := counted t
  rw [List.count_eq_countP, List.countP_map] at once
  rw [swapped, ← List.countP_eq_length_filter]
  exact once

/-- The number of children is the number of extensions that lead to the type.  A type that is its
own superclass is no child of itself, and has no such edge. -/
theorem childCount_eq (lineage : f.Lineage types) (sound : f.graph.Sound) (p : Handle) :
    f.inheritance.childCount p = f.extensionsInto p := by
  have byRecord : f.inheritance.childCount p = (f.subclasses p).length := by
    rw [subclasses, List.length_map, ← List.countP_eq_length_filter]
    exact Inheritance.childCount_ofRecords _ p
  have byEdge : f.extensionsInto p =
      ((f.graph.extensions.filter (·.target == p)).map Edge.source).length := by
    rw [extensionsInto, sound.incoming_eq, List.countP_eq_length_filter, List.length_map,
      Graph.extensions, List.filter_comm]
  rw [byRecord, byEdge]
  refine List.Perm.length_eq ((List.perm_ext_iff_of_nodup (f.nodup_subclasses p) ?_).mpr ?_)
  · refine (lineage.nodup_source_extensions sound).sublist ?_
    exact List.filter_sublist.map Edge.source
  · intro h
    rw [mem_subclasses_iff, List.mem_map]
    constructor
    · rintro ⟨above, other⟩
      refine ⟨⟨h, p, .extension, 1⟩, List.mem_filter.mpr ⟨?_, beq_self_eq_true p⟩, rfl⟩
      exact (lineage.extension_iff _).mpr ⟨rfl, rfl, above, other.symm⟩
    · rintro ⟨e, kept, rfl⟩
      obtain ⟨listed, target⟩ := List.mem_filter.mp kept
      obtain ⟨-, -, above, other⟩ := (lineage.extension_iff e).mp listed
      rw [← beq_iff_eq.mp target]
      exact ⟨above, other.symm⟩

end Lineage

end Findings

/-! ## Whole runs -/

/-- The measures of some elements are counts that sum up to `total`; elements without a measure add
nothing. -/
def Metric.SumsTo (metric : Metric) (es : List Element) (total : Nat) : Prop :=
  ∃ count : Element → Nat,
    (∀ e ∈ es, e.metric? metric = some (.ofCount (count e)) ∨
      e.metric? metric = none ∧ count e = 0) ∧ (es.map count).sum = total

namespace Analysis

variable {config : Config} {visitors : List (External σ × Subscription)}
  {sources : List SourceFile} {artifacts : List Artifact} {a : Analysis}

/-- No visitor that is not part of the analysis itself records a superclass. -/
def SuperclassesUntouched (config : Config) (visitors : List (External σ × Subscription))
    (sources : List SourceFile) (artifacts : List Artifact) : Prop :=
  ∀ call ∈ (runSession config visitors sources artifacts).2.transcript.toList,
    (ownVisitors config : List (Subscriber σ)).length ≤ call.slot →
      ∀ effect ∈ call.reaction.effects, effect.recordsSuperclass = false

/-- The superclasses that are recorded at the end of a run have their extensions. -/
theorem lineage_of_run (ran : run config visitors sources artifacts = .ok a)
    (untouched : SuperclassesUntouched config visitors sources artifacts) :
    ∃ types, a.findings.Lineage types := by
  obtain ⟨types, s, finished, same⟩ := finished_of_run ran
  have silent : s.Silent := by
    intro call listed
    rw [← finished.transcript] at listed
    obtain ⟨badge, found, quiet⟩ := finished.sane.proper call listed
    rcases Nat.lt_or_ge call.slot (ownVisitors config : List (Subscriber σ)).length with
      early | late
    · exact (quiet (own_of_lt early found)).2
    · exact untouched call listed late
  rw [same]
  refine ⟨types, (finished.underway.lineage silent).congr finished.closes.superclasses ?_⟩
  rw [finished.closes.graph]
  exact Graph.extensions_addTypes _ _

/-- The number of children stands at every type and every placeholder. -/
theorem noc_of_run (ran : run config visitors sources artifacts = .ok a) {e : Element}
    (listed : e ∈ a.index.typeLevel) :
    e.metric? .noc = some (.ofCount (a.findings.inheritance.childCount e.handle)) := by
  obtain ⟨known, level⟩ : a.index.get? e.handle = some e ∧ e.kind.isTypeLevel = true :=
    (sound_of_run ran).index.mem_search_iff.mp listed
  obtain ⟨m, measures⟩ := measures_of_run ran ⟨e.kind, Index.kind?_of_get? known, level⟩
  rw [Index.measuresOf_of_get? known] at measures
  rw [Element.metric?, Element.measure?, measures]
  exact noc_closingMeasures _ _ _ _

/-- **Superclasses and extension edges agree**, whoever listens, as long as no visitor records a
superclass.  The sums are over all types and placeholders, and over all elements if nothing else
has a number of children. -/
theorem superclasses_match_extensions (ran : run config visitors sources artifacts = .ok a)
    (untouched : SuperclassesUntouched config visitors sources artifacts) :
    (∀ t p, t ≠ p → (a.findings.superclass? t = some p ↔
        ∃ e ∈ a.graph.edges.toList, e.source = t ∧ e.target = p ∧ e.kind = .extension)) ∧
      (∀ e ∈ a.graph.edges.toList, e.kind = .extension → e.usage = 1) ∧
      (∀ t, ((a.graph.outgoing t).filter (·.kind == .extension)).length ≤ 1) ∧
      (∀ e ∈ a.index.typeLevel, e.metric? .noc =
        some (.ofCount ((a.graph.incoming e.handle).countP (·.kind == .extension)))) ∧
      Metric.noc.SumsTo a.index.typeLevel (a.graph.edges.toList.countP (·.kind == .extension)) ∧
      ((∀ e ∈ a.index.elements.toList, e.kind.isTypeLevel = false → e.metric? .noc = none) →
        Metric.noc.SumsTo a.index.elements.toList
          (a.graph.edges.toList.countP (·.kind == .extension))) := by
  obtain ⟨types, lineage⟩ := lineage_of_run ran untouched
  have sound : a.findings.toModel.Sound := by
    obtain ⟨types, s, finished, same⟩ := finished_of_run ran
    rw [same]
    exact finished.sane.sound
  have noc : ∀ e ∈ a.index.typeLevel, e.metric? .noc =
      some (.ofCount (a.findings.extensionsInto e.handle)) := by
    intro e listed
    rw [noc_of_run ran listed, lineage.childCount_eq sound.graph]
  have total : a.graph.edges.toList.countP (·.kind == .extension) =
      a.findings.graph.extensions.length := List.countP_eq_length_filter
  refine ⟨fun t p other => lineage.superclass?_iff other, fun e => lineage.usage_eq,
    lineage.length_outgoing_le sound.graph, noc, ?_, fun bare => ?_⟩
  · refine ⟨fun e => a.findings.extensionsInto e.handle, fun e listed => .inl (noc e listed), ?_⟩
    rw [total]
    refine Findings.sum_extensionsInto sound.graph sound.index.nodup_typeLevel fun e listed => ?_
    exact sound.index.mem_typeLevel_iff.mpr (Findings.isTypeLevel_target sound listed)
  · refine ⟨fun e => a.findings.extensionsInto e.handle, fun e listed => ?_, ?_⟩
    · -- what is no type has no number, and nothing extends it
      have known := sound.index.mem_elements_iff.mp listed
      cases level : e.kind.isTypeLevel with
      | true => exact .inl (noc e (sound.index.mem_search_iff.mpr ⟨known, level⟩))
      | false =>
          refine .inr ⟨bare e listed level, Findings.extensionsInto_eq_zero sound ?_⟩
          rintro ⟨kind, is, high⟩
          rw [Index.kind?_of_get? known, Option.some.injEq] at is
          rw [← is, level] at high
          cases high
    · rw [total]
      refine Findings.sum_extensionsInto sound.graph sound.index.nodup_handles fun e listed => ?_
      obtain ⟨kind, is, -⟩ := Findings.isTypeLevel_target sound listed
      obtain ⟨target, found, -⟩ := Option.map_eq_some_iff.mp is
      have same := sound.index.handle_eq found
      rw [← same] at found ⊢
      exact List.mem_map_of_mem (sound.index.mem_elements_iff.mpr found)

section Tagged

/-- It gives one child to whatever it is told of. -/
def nocTagger : External Unit where
  name := "tagger"
  interests := EventKind.all
  memory := ()
  react _ _ e :=
    ((), { effects := e.element?.toList.map (Effect.attach · Metric.noc.name (.ofCount 1)) })

/-- A class that extends itself, two that extend it, one of them decoded twice, one whose superclass
is never decoded, and one whose superclass is a package. -/
def family : List Artifact :=
  let extending (key superclass : String) : ClassFacts :=
    { key := key, superclass := some superclass, interfaces := [], fields := [], methods := [] }
  [{ path := "all.jar", classes := [extending "p/Son" "p/Base", extending "p/Base" "p/Base",
      extending "p/Son" "Other", extending "p/Odd" "p"], error := none },
    { path := "more.jar", classes := [extending "p/Heir" "p/Base", extending "p/Last" "Root"],
      error := some (.malformed "cut off") }]

theorem superclasses_match_extensions_family :
    ∃ a, run {} [(nocTagger, .both)] [] family = .ok a ∧
      SuperclassesUntouched {} [(nocTagger, .both)] [] family ∧
      a.graph.edges.toList.countP (·.kind == .extension) = 3 ∧
      (a.findings.superclass? ⟨2⟩ = some ⟨3⟩ ↔ ∃ e ∈ a.graph.edges.toList,
        e.source = ⟨2⟩ ∧ e.target = ⟨3⟩ ∧ e.kind = .extension) ∧
      Metric.noc.SumsTo a.index.typeLevel 3 := by
  have untouched : SuperclassesUntouched {} [(nocTagger, .both)] [] family := by
    unfold SuperclassesUntouched
    decide +kernel
  have evaluated : ((run {} [(nocTagger, .both)] [] family).toOption.map
      fun a => a.graph.edges.toList.countP (·.kind == .extension)) = some 3 := by
    decide +kernel
  cases ran : run {} [(nocTagger, .both)] [] family with
  | error e =>
      rw [ran] at evaluated
      cases evaluated
  | ok a =>
      rw [ran] at evaluated
      have total : a.graph.edges.toList.countP (·.kind == .extension) = 3 :=
        Option.some.inj evaluated
      obtain ⟨agree, -, -, -, sum, -⟩ := superclasses_match_extensions ran untouched
      rw [total] at sum
      exact ⟨a, rfl, untouched, total, agree ⟨2⟩ ⟨3⟩ (by decide), sum⟩

/-- A type with a method. -/
def declaredMethod : List SourceFile :=
  [{ path := "A.java", result := .ok [⟨.type, "A", none⟩, ⟨.method, "A#m()V", some "A"⟩] }]

/-- What a visitor attaches to a method stays there: over all elements, the numbers of children are
more than the extensions. -/
theorem methodTagged_noc_sum :
    ∃ a, run {} [(nocTagger, .both)] declaredMethod [] = .ok a ∧
      SuperclassesUntouched {} [(nocTagger, .both)] declaredMethod [] ∧
      a.graph.edges.toList.countP (·.kind == .extension) = 0 ∧
      ¬ Metric.noc.SumsTo a.index.elements.toList 0 := by
  have untouched : SuperclassesUntouched {} [(nocTagger, .both)] declaredMethod [] := by
    unfold SuperclassesUntouched
    decide +kernel
  have evaluated : ((run {} [(nocTagger, .both)] declaredMethod []).toOption.map fun a =>
      (a.graph.edges.toList.countP (·.kind == .extension),
        a.index.elements.toList.map (·.metric? .noc))) =
      some (0, [some (.ofCount 0), some (.ofCount 1)]) := by
    decide +kernel
  cases ran : run {} [(nocTagger, .both)] declaredMethod [] with
  | error e =>
      rw [ran] at evaluated
      cases evaluated
  | ok a =>
      rw [ran] at evaluated
      obtain ⟨total, measures⟩ := Prod.mk.inj (Option.some.inj evaluated)
      refine ⟨a, rfl, untouched, total, ?_⟩
      rintro ⟨count, counted, sum⟩
      obtain ⟨type, method, both⟩ := List.length_eq_two.mp
        ((List.length_map _).symm.trans (congrArg List.length measures))
      rw [both] at measures counted sum
      have one : method.metric? .noc = some (.ofCount 1) :=
        (List.cons.inj (List.cons.inj measures).2).1
      have none : count method = 0 := by
        simp only [List.map_cons, List.map_nil, List.sum_cons, List.sum_nil] at sum
        omega
      rcases counted method (by simp) with measured | ⟨missing, -⟩
      · rw [one, none] at measured
        exact absurd measured (by decide +kernel)
      · rw [one] at missing
        cases missing

end Tagged

end Analysis

end CodeMetrics
