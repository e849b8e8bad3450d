import CodeMetrics.Proofs.Scan.MeasuresByKey

/-!
# The order of the classes does not matter

Two runs over the same classes in different orders make different indices: handles, placeholders and
the order of the edges differ.  What they say by keys is the same, if the keys of the classes are
plain and distinct.

* `Uncontested` collects what is known of the findings once all classes were scanned without a
  dispute.  Every field is about the *set* of the classes.
* A dispute in one order is a dispute in every order, since the deeds of all classes are either
  consistent or not.
* `Uncontested.profile?_eq` compares two such findings, key by key.
-/

namespace CodeMetrics

open Std (ExtTreeMap)

namespace Analysis

/-- What an analysis says about one key. -/
structure Profile where
  kind : Kind
  /-- The key of the owner. -/
  owner : Option String
  measures : ExtTreeMap String Measure

/-- The profile of a key. -/
def profile? (a : Analysis) (key : String) : Option Profile :=
  (a.find? key).map fun e => ⟨e.kind, e.parent.bind a.index.key?, e.measures⟩

theorem profile?_of_unknown {a : Analysis} (coherent : a.index.Coherent) {key : String}
    (unknown : ¬ ∃ h, a.index.key? h = some key) : a.profile? key = none := by
  have missing : a.index.handle? key = none := by
    cases listed : a.index.handle? key with
    | none => rfl
    | some h => exact absurd ⟨h, coherent.handle?_iff.mp listed⟩ unknown
  have absent : a.find? key = none := coherent.find?_eq_none_iff.mpr missing
  rw [profile?, absent]
  rfl

theorem profile?_of_named {a : Analysis} (coherent : a.index.Coherent) {key : String} {h : Handle}
    {kind : Kind} (named : a.index.key? h = some key) (is : a.index.kind? h = some kind) :
    a.profile? key =
      some ⟨kind, (a.index.parent? h).bind a.index.key?, a.index.measuresOf h⟩ := by
  obtain ⟨e, found⟩ := Index.knows_iff_get?.mp (.of_key? named)
  rw [Index.key?_of_get? found, Option.some.injEq] at named
  rw [Index.kind?_of_get? found, Option.some.injEq] at is
  have same := coherent.handle_eq found
  subst same is
  have located : a.find? key = some e := coherent.find?_eq_some_iff.mpr ⟨found, named⟩
  rw [profile?, located, Index.parent?_of_get? found, Index.measuresOf_of_get? found]
  rfl

end Analysis

/-! ## Scans without a dispute -/

/-- The findings after all classes were scanned without a dispute. -/
structure Uncontested (config : Config) (classes : List ClassFacts) (f : Findings) : Prop where
  steady : f.Steady
  records : f.index.Records (declarationsOf config.projectKey classes)
  edges : f.graph.keyedEdges f.index =
    tally (counted (classes.flatMap (ClassFacts.allDeeds config.projectKey)))
  enlisted : ∃ types, Enlisted classes types f.index
  heirs : Heirs classes f.index f.superclasses
  visited : ∀ {c : ClassFacts} {h : Handle}, c ∈ classes → f.index.key? h = some c.key →
    f.index.measuresOf h =
      visitedMeasures ∅ (c.response [] []) (c.cohesion config.excludes ⟨0⟩ [])
  unvisited : ∀ {h : Handle}, (∀ c ∈ classes, f.index.key? h ≠ some c.key) →
    f.index.measuresOf h = ∅

section Visited

variable {project : String} {classes : List ClassFacts} {c : ClassFacts} {excluded : String → Bool}
  {type : Handle} {before after : ExtTreeMap String Measure}

/-- The methods that were declared for a class are its own, because no other class has its key. -/
theorem mem_methods_of_declared (distinct : (classes.map ClassFacts.key).Nodup)
    (listed : c ∈ classes) {key : String}
    (declared : ⟨.method, key, some c.key⟩ ∈ declarationsOf project classes) :
    key ∈ c.methods.map c.methodKey := by
  obtain ⟨c', listed', states⟩ := states_of_mem_declarationsOf declared
  generalize same : (⟨.method, key, some c.key⟩ : Declaration) = d at states
  cases states with
  | @method m member =>
      simp only [Declaration.method, Declaration.mk.injEq, Option.some.injEq, true_and] at same
      obtain ⟨rfl, owner⟩ := same
      obtain rfl := List.inj_on_of_nodup_map distinct listed listed' owner
      exact List.mem_map_of_mem member
  | _ => cases same

/-- What the visitors find in a class is found in the class alone: no other class has its key, so
none mentions its methods or has taken one of its places. -/
theorem Visited.measures_eq (plain : ∀ c ∈ classes, c.Plain)
    (distinct : (classes.map ClassFacts.key).Nodup) (listed : c ∈ classes)
    (visited : Visited excluded (.ofClasses project classes) c type before after) :
    after = visitedMeasures before (c.response [] []) (c.cohesion excluded ⟨0⟩ []) := by
  obtain ⟨methods, seen, nodup, declared, elsewhere, rfl⟩ := visited
  have mentions : c.mentions seen = c.mentions [] := by
    refine ClassFacts.mentions_of_elsewhere (plain c listed) fun place member => ?_
    obtain ⟨c', listed', other, used⟩ := elsewhere place member
    exact ⟨c', plain c' listed', other, used⟩
  have own : methods ⊆ c.methods.map c.methodKey :=
    fun key member => mem_methods_of_declared distinct listed (declared key member)
  have response : c.response methods seen = c.response [] [] := by
    rw [ClassFacts.response, mentions]
    exact ClassFacts.response_eq nodup own
  have cohesion : c.cohesion excluded type seen = c.cohesion excluded ⟨0⟩ [] := by
    rw [c.cohesion_eq excluded type ⟨0⟩, ClassFacts.cohesion, mentions]
    rfl
  rw [response, cohesion]

end Visited

section Runs

variable {σ : Type} {config : Config} {artifacts : List Artifact}

/-- A run over plain and distinct classes is disputed or uncontested, whichever the deeds of the
classes allow.  The outline of such classes is the outline of all of them at once, which does not
depend on their order. -/
theorem Analysis.run_uncontested (config : Config) (intact : ∀ x ∈ artifacts, x.error = none)
    (plain : ∀ c ∈ artifacts.flatMap Artifact.classes, c.Plain)
    (distinct : ((artifacts.flatMap Artifact.classes).map ClassFacts.key).Nodup) :
    ∃ (a : Analysis) (f : Findings),
      run config ([] : List (External σ × Subscription)) [] artifacts = .ok a ∧
      Closes f a.findings ∧
      (a.findings.report.isClean = true ↔ Consistent
        ((artifacts.flatMap Artifact.classes).flatMap (ClassFacts.allDeeds config.projectKey))) ∧
      (a.findings.report.isClean = true →
        Uncontested config (artifacts.flatMap Artifact.classes) f) := by
  obtain ⟨a, declared, progress, t, ran, facts, empty, following, closes⟩ :=
    run_follows (σ := σ) config [] artifacts
  -- without source files the scan starts from nothing
  obtain ⟨index, report⟩ := empty rfl
  have project : declared.owningProject = config.projectKey := by
    rw [Findings.owningProject, index, facts.config]
    rfl
  have outline : Outline.scan declared.owningProject
      { deeds := declared.index.declarations.map .declare } artifacts =
        .ofClasses config.projectKey (artifacts.flatMap Artifact.classes) := by
    rw [index, project]
    exact Outline.scan_eq intact plain distinct
  rw [outline, project] at following
  have same_report : a.findings.report = t.findings.report := closes.report
  have clean_iff : a.findings.report.isClean = true ↔ ¬ t.findings.Disputed := by
    rw [same_report, Report.isClean, Array.isEmpty_iff]
    constructor
    · rintro clean ⟨i, listed, -⟩
      rw [clean] at listed
      cases listed
    · intro undisputed
      have issues := (following.followed undisputed).issues
      rw [report] at issues
      exact Array.toList_eq_nil_iff.mp issues
  refine ⟨a, t.findings, ran, closes, ?_, fun clean => ?_⟩
  · rw [clean_iff, following.tracks.disputed_iff following.steady, not_not]
    rfl
  · have undisputed := clean_iff.mp clean
    have reflects := following.tracks.reflects undisputed
    have followed := following.followed undisputed
    have nothing (h : Handle) : declared.index.measuresOf h = ∅ := by
      rw [index]
      rfl
    refine ⟨following.steady, reflects.records, reflects.edges, ⟨_, followed.enlisted⟩,
      followed.heirs, fun listed named => ?_, fun other => ?_⟩
    · have measures := (followed.visits.visited listed named).measures_eq plain distinct listed
      rw [nothing, facts.config] at measures
      exact measures
    · rw [followed.visits.unvisited other, nothing]

end Runs

/-! ## Two runs -/

namespace Uncontested

variable {config : Config} {classes classes' : List ClassFacts} {f f' : Findings} {h h' : Handle}
  {key : String}

theorem records_perm (uncontested : Uncontested config classes' f') (perm : classes.Perm classes') :
    f'.index.Records (declarationsOf config.projectKey classes) :=
  uncontested.records.congr fun _ => ((perm.flatMap_right _).map _).mem_iff

/-- The same edges are exported. -/
theorem keyedEdges_perm (uncontested : Uncontested config classes f)
    (uncontested' : Uncontested config classes' f') (perm : classes.Perm classes') :
    (f'.graph.keyedEdges f'.index).Perm (f.graph.keyedEdges f.index) := by
  rw [uncontested.edges, uncontested'.edges]
  have deeds := perm.symm.flatMap_right (ClassFacts.allDeeds config.projectKey)
  exact tally_perm (deeds.filterMap Deed.dependency?)

/-- The visitors attach the same measures, since what they find in a class is found in the class
alone. -/
theorem visited_eq (uncontested : Uncontested config classes f)
    (uncontested' : Uncontested config classes' f') (perm : classes.Perm classes')
    (named : f.index.key? h = some key) (named' : f'.index.key? h' = some key) :
    f'.index.measuresOf h' = f.index.measuresOf h := by
  by_cases member : ∃ c ∈ classes, c.key = key
  · obtain ⟨c, listed, rfl⟩ := member
    rw [uncontested.visited listed named, uncontested'.visited (perm.mem_iff.mp listed) named']
  · rw [uncontested.unvisited, uncontested'.unvisited]
    · intro c listed same
      rw [named', Option.some.injEq] at same
      exact member ⟨c, perm.mem_iff.mpr listed, same.symm⟩
    · intro c listed same
      rw [named, Option.some.injEq] at same
      exact member ⟨c, listed, same.symm⟩

/-- The metrics at the end of the run are the same.  Depth and number of children come from the
superclasses, the couplings from the exported edges, and both are a matter of keys. -/
theorem closingMeasures_eq (uncontested : Uncontested config classes f)
    (uncontested' : Uncontested config classes' f') (perm : classes.Perm classes')
    (distinct : (classes.map ClassFacts.key).Nodup) (named : f.index.key? h = some key)
    (named' : f'.index.key? h' = some key) (m : ExtTreeMap String Measure) :
    Analysis.closingMeasures f'.inheritance (f'.graph.addTypes f'.index) h' m =
      Analysis.closingMeasures f.inheritance (f.graph.addTypes f.index) h m := by
  have distinct' : (classes'.map ClassFacts.key).Nodup := (perm.map _).nodup_iff.mp distinct
  have coherent := uncontested.steady.index.toCoherent
  have coherent' := uncontested'.steady.index.toCoherent
  obtain ⟨types, enlisted⟩ := uncontested.enlisted
  obtain ⟨types', enlisted'⟩ := uncontested'.enlisted
  have depth : f'.inheritance.depth h' = f.inheritance.depth h := by
    -- handles of one key have superclasses of one key, so the walks upwards correspond
    let related (h h' : Handle) : Prop :=
      ∃ key, f.index.key? h = some key ∧ f'.index.key? h' = some key
    refine @Inheritance.depth_eq _ _ related h h' ?_ ⟨key, named, named'⟩
    rintro g g' ⟨above, aboveNamed, aboveNamed'⟩
    exact uncontested.heirs.superclass?_corresponds uncontested'.heirs coherent coherent'
      (fun _ => perm.mem_iff.symm) aboveNamed aboveNamed'
  have children : f'.inheritance.childCount h' = f.inheritance.childCount h := by
    rw [Findings.inheritance, Findings.inheritance,
      uncontested.heirs.childCount_eq coherent enlisted distinct named,
      uncontested'.heirs.childCount_eq coherent' enlisted' distinct' named', perm.countP_eq]
  have steady₁ := Analysis.addTypes_steady uncontested.steady
  have steady₁' := Analysis.addTypes_steady uncontested'.steady
  have exported : ∀ k, k ∈ (f'.graph.addTypes f'.index).keyedEdges f'.index ↔
      k ∈ (f.graph.addTypes f.index).keyedEdges f.index := by
    intro k
    rw [Graph.keyedEdges_addTypes, Graph.keyedEdges_addTypes,
      (uncontested.keyedEdges_perm uncontested' perm).mem_iff]
  obtain ⟨afferent, efferent⟩ :
      (f'.graph.addTypes f'.index).afferent h' = (f.graph.addTypes f.index).afferent h ∧
        (f'.graph.addTypes f'.index).efferent h' = (f.graph.addTypes f.index).efferent h :=
    Graph.couplings_eq steady₁.graph steady₁'.graph steady₁.founded steady₁'.founded coherent
      coherent' named named' exported
  unfold Analysis.closingMeasures Findings.couple
  rw [depth, children, afferent, efferent]

/-- All measures at the end of the run are the same: those of the visitors, found in each class
alone, and those that are computed at the end. -/
theorem measures_eq {a a' : Analysis} (uncontested : Uncontested config classes f)
    (uncontested' : Uncontested config classes' f') (perm : classes.Perm classes')
    (distinct : (classes.map ClassFacts.key).Nodup)
    (closes : Analysis.Closes f a.findings) (closes' : Analysis.Closes f' a'.findings)
    (named : f.index.key? h = some key) (named' : f'.index.key? h' = some key) :
    a'.index.measuresOf h' = a.index.measuresOf h := by
  have kinds := uncontested.records.kind?_eq (uncontested'.records_perm perm)
    uncontested.steady.index.toCoherent uncontested'.steady.index.toCoherent named named'
  have before := uncontested.visited_eq uncontested' perm named named'
  have level_iff : f'.index.IsTypeLevel h' ↔ f.index.IsTypeLevel h := by
    rw [Index.IsTypeLevel, Index.IsTypeLevel, kinds]
  -- only types and placeholders get the last metrics
  by_cases level : f.index.IsTypeLevel h
  · have stamped : a.index.measuresOf h = _ := closes.stamped level
    have stamped' : a'.index.measuresOf h' = _ := closes'.stamped (level_iff.mpr level)
    rw [stamped, stamped', uncontested.closingMeasures_eq uncontested' perm distinct named named']
    exact congrArg _ before
  · have untouched : a.index.measuresOf h = _ := closes.untouched level
    have untouched' : a'.index.measuresOf h' = _ := closes'.untouched (mt level_iff.mp level)
    rw [untouched, untouched']
    exact before

/-- Two runs over the same classes have the same profiles, key by key: the kind, the key of the
owner and the measures of an element. -/
theorem profile?_eq {a a' : Analysis} (uncontested : Uncontested config classes f)
    (uncontested' : Uncontested config classes' f') (perm : classes.Perm classes')
    (plain : ∀ c ∈ classes, c.Plain) (distinct : (classes.map ClassFacts.key).Nodup)
    (closes : Analysis.Closes f a.findings) (closes' : Analysis.Closes f' a'.findings)
    (key : String) : a'.profile? key = a.profile? key := by
  have sound := (closes.steady (Analysis.addTypes_steady uncontested.steady)).index
  have sound' := (closes'.steady (Analysis.addTypes_steady uncontested'.steady)).index
  have records : a.index.Records (declarationsOf config.projectKey classes) :=
    uncontested.records.reshape closes.keys closes.kinds closes.parents
  have records' : a'.index.Records (declarationsOf config.projectKey classes) :=
    (uncontested'.records_perm perm).reshape closes'.keys closes'.kinds closes'.parents
  by_cases declared : ∃ d ∈ declarationsOf config.projectKey classes, d.key = key
  · obtain ⟨h, named⟩ := records.known_iff.mpr declared
    obtain ⟨h', named'⟩ := records'.known_iff.mpr declared
    obtain ⟨kind, is⟩ := Index.knows_iff_kind?.mp (.of_key? named)
    have is' : a'.index.kind? h' = some kind :=
      (records.kind?_eq records' sound.toCoherent sound'.toCoherent named named').trans is
    have layered := layered_declarationsOf config.projectKey plain
    rw [Analysis.profile?_of_named sound.toCoherent named is,
      Analysis.profile?_of_named sound'.toCoherent named' is',
      records.map_key_parent? sound layered named is,
      records'.map_key_parent? sound' layered named' is',
      uncontested.measures_eq uncontested' perm distinct closes closes'
        ((closes.keys h).symm.trans named) ((closes'.keys h').symm.trans named')]
  · rw [Analysis.profile?_of_unknown sound.toCoherent (mt records.known_iff.mp declared),
      Analysis.profile?_of_unknown sound'.toCoherent (mt records'.known_iff.mp declared)]

end Uncontested

namespace Analysis

variable {σ : Type}

/-- **The bytecode scan does not depend on the order of the classes.**  Two runs without source
files over intact artifacts with the same classes, whose keys are distinct and hold no `#`, end
both with issues or both without.  Without issues they have the same profile for every key and the
same exported edges. -/
theorem bytecode_order_irrelevant (config : Config) (artifacts artifacts' : List Artifact)
    (intact : ∀ x ∈ artifacts, x.error = none) (intact' : ∀ x ∈ artifacts', x.error = none)
    (perm : (artifacts.flatMap Artifact.classes).Perm (artifacts'.flatMap Artifact.classes))
    (distinct : ((artifacts.flatMap Artifact.classes).map ClassFacts.key).Nodup)
    (plain : ∀ c ∈ artifacts.flatMap Artifact.classes, c.Plain) :
    ∃ a a', run config ([] : List (External σ × Subscription)) [] artifacts = .ok a ∧
      run config ([] : List (External σ × Subscription)) [] artifacts' = .ok a' ∧
      (a'.findings.report.isClean = true ↔ a.findings.report.isClean = true) ∧
      (a.findings.report.isClean = true →
        (∀ key, a'.profile? key = a.profile? key) ∧ a'.keyedEdges.Perm a.keyedEdges) := by
  have distinct' : ((artifacts'.flatMap Artifact.classes).map ClassFacts.key).Nodup :=
    (perm.map _).nodup_iff.mp distinct
  have plain' : ∀ c ∈ artifacts'.flatMap Artifact.classes, c.Plain :=
    fun c listed => plain c (perm.mem_iff.mpr listed)
  obtain ⟨a, f, ran, closes, clean_iff, uncontested⟩ :=
    run_uncontested (σ := σ) config intact plain distinct
  obtain ⟨a', f', ran', closes', clean_iff', uncontested'⟩ :=
    run_uncontested (σ := σ) config intact' plain' distinct'
  -- the deeds of the two runs are the same, up to their order
  have deeds := perm.flatMap_right (ClassFacts.allDeeds config.projectKey)
  have both : a'.findings.report.isClean = true ↔ a.findings.report.isClean = true := by
    rw [clean_iff, clean_iff']
    exact ⟨fun consistent => consistent.mono deeds.subset,
      fun consistent => consistent.mono deeds.symm.subset⟩
  refine ⟨a, a', ran, ran', both, fun clean => ?_⟩
  have first := uncontested clean
  have second := uncontested' (both.mpr clean)
  refine ⟨first.profile?_eq second perm plain distinct closes closes', ?_⟩
  rw [keyedEdges_of_closes closes, keyedEdges_of_closes closes']
  exact first.keyedEdges_perm second perm

section Shuffled

/-- It extends and uses a class, and repeats a site. -/
def heir : ClassFacts :=
  { key := "p/Heir", superclass := some "p/Base", interfaces := ["q/Face", "q/Face"]
    fields := [⟨"x"⟩]
    methods :=
      [⟨"m()V", [.call ⟨1, "p/Base", "run()V"⟩, .call ⟨1, "p/Base", "run()V"⟩,
        .access ⟨2, "p/Heir", "x"⟩]⟩, ⟨"n()V", [.call ⟨1, "q/Face", "n()V"⟩]⟩] }

/-- It extends a class that is never decoded, and uses its own heir. -/
def base : ClassFacts :=
  { key := "p/Base", superclass := some "Root", interfaces := [], fields := []
    methods := [⟨"run()V", [.access ⟨1, "p/Heir", "x"⟩, .call ⟨2, "p/Heir", "m()V"⟩]⟩] }

def face : ClassFacts :=
  { key := "q/Face", superclass := none, interfaces := [], fields := [], methods := [⟨"n()V", []⟩] }

/-- The supertypes are placeholders before they are classes. -/
def heirFirst : List Artifact :=
  [{ path := "all.jar", classes := [heir, base, face], error := none }]

def heirLast : List Artifact :=
  [{ path := "face.jar", classes := [face], error := none },
    { path := "rest.jar", classes := [base, heir], error := none }]

theorem bytecode_order_irrelevant_heirFirst :
    ∃ a a', run {} ([] : List (External Unit × Subscription)) [] heirFirst = .ok a ∧
      run {} ([] : List (External Unit × Subscription)) [] heirLast = .ok a' ∧
      a.findings.report.isClean = true ∧ a'.findings.report.isClean = true ∧
      (∀ key, a'.profile? key = a.profile? key) ∧ a'.keyedEdges.Perm a.keyedEdges ∧
      a.index.handle? "q/Face" = some ⟨4⟩ ∧ a'.index.handle? "q/Face" = some ⟨2⟩ := by
  obtain ⟨a, a', ran, ran', both, same⟩ :=
    bytecode_order_irrelevant (σ := Unit) {} heirFirst heirLast (by decide) (by decide) (by decide)
      (by decide) (by decide)
  have evaluated : ((run {} ([] : List (External Unit × Subscription)) [] heirFirst).toOption.map
      fun a => (a.findings.report.isClean, a.index.handle? "q/Face")) = some (true, some ⟨4⟩) := by
    decide +kernel
  have evaluated' : ((run {} ([] : List (External Unit × Subscription)) [] heirLast).toOption.map
      fun a => a.index.handle? "q/Face") = some (some ⟨2⟩) := by
    decide +kernel
  rw [ran] at evaluated
  rw [ran'] at evaluated'
  simp only [Except.toOption, Option.map_some, Option.some.injEq, Prod.mk.injEq]
    at evaluated evaluated'
  obtain ⟨clean, handle⟩ := evaluated
  obtain ⟨profiles, edges⟩ := same clean
  exact ⟨a, a', ran, ran', clean, both.mpr clean, profiles, edges, handle, evaluated'⟩

end Shuffled

end Analysis

end CodeMetrics
