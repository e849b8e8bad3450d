import CodeMetrics.Proofs.Index.Bare
import CodeMetrics.Proofs.Scan.Abreast

/-!
# Scans without annotations

Scans, the last metrics and the visitors of the analysis itself neither read annotations nor make
any.  So it makes no difference whether the annotations are taken away before an edit of the
findings or after it (`Findings.Edit.bare`), and the visitors of the analysis itself answer the same
(`Visitor.react_bare`).
-/

namespace CodeMetrics

variable {σ α β : Type} {issues : Issue → Prop}

namespace Findings

/-- The findings without annotations. -/
def bare (f : Findings) : Findings := { f with index := f.index.bare }

/-- An answer with the findings without annotations. -/
def bareAnswer (x : α × Findings) : α × Findings := (x.1, x.2.bare)

variable (f : Findings)

/-! ## Registrations and dependencies -/

/-- A registration does the same in bare findings, since it looks at no measure. -/
theorem declare_bare (key : String) (kind : Kind) (parent : Option String) :
    f.bare.declare key kind parent = bareAnswer (f.declare key kind parent) := by
  have registered : f.bare.toModel.register key kind parent =
      ((f.toModel.register key kind parent).1, (f.toModel.register key kind parent).2.bare) :=
    f.toModel.bare_register key kind parent
  unfold declare
  rw [registered]
  rfl

/-- Registering the element of a fact does the same in bare findings, down to the issue of a
refusal. -/
theorem declareFact_bare (phase : Phase) (key : String) (kind : Kind) (parent : Option String) :
    f.bare.declareFact phase key kind parent =
      bareAnswer (f.declareFact phase key kind parent) := by
  unfold declareFact
  rw [declare_bare]
  rcases f.declare key kind parent with ⟨e | h, f₁⟩ <;> rfl

/-- Counting a dependency does the same in bare findings. -/
theorem depend_bare (source target : String) (kind : EdgeKind) :
    f.bare.depend source target kind = bareAnswer (f.depend source target kind) := by
  have added : f.bare.toModel.addEdge source target kind =
      ((f.toModel.addEdge source target kind).1, (f.toModel.addEdge source target kind).2.bare) :=
    f.toModel.bare_addEdge source target kind
  unfold depend
  rw [added]
  rcases f.toModel.addEdge source target kind with ⟨e | n, m⟩ <;> rfl

/-- Recording a superclass does the same in bare findings. -/
theorem addSuperclass_bare (c : ClassFacts) (type : Handle) :
    f.bare.addSuperclass c type = (f.addSuperclass c type).bare := by
  unfold addSuperclass
  cases c.superclass with
  | none => rfl
  | some superclass =>
      dsimp only
      rw [depend_bare]
      rfl

/-- Opening a class does the same in bare findings: its facts are registrations, dependencies and
recorded superclasses. -/
theorem openClass_bare (c : ClassFacts) (type : Handle) :
    f.bare.openClass c type = (f.openClass c type).bare := by
  have interfaces (f : Findings) : f.bare.addInterfaces c = (f.addInterfaces c).bare :=
    List.foldl_hom bare fun f key => congrArg Prod.snd (f.depend_bare c.key key .implementation)
  have fields (f : Findings) : f.bare.addFields c = (f.addFields c).bare :=
    List.foldl_hom bare fun f field =>
      congrArg Prod.snd (f.declareFact_bare .bytecode (c.fieldKey field) .field (some c.key))
  unfold openClass
  dsimp only
  rw [← fields, ← interfaces, ← addSuperclass_bare]
  rfl

/-- Finding or making the project does the same in bare findings. -/
theorem ensureProject_bare : f.bare.ensureProject = bareAnswer f.ensureProject := by
  have found : f.bare.index.project? = f.index.project?.map Element.bare := f.index.project?_bare
  unfold ensureProject
  rw [found]
  cases f.index.project? with
  | some e => rfl
  | none =>
      dsimp only [Option.map_none]
      have declared := f.declare_bare f.config.projectKey .project none
      exact congrArg (fun x : Except IndexError Handle × Findings =>
        (x.1.map fun _ => x.2.config.projectKey, x.2)) declared

/-- Placing a type does the same in bare findings. -/
theorem placeType_bare (key : String) : f.bare.placeType key = bareAnswer (f.placeType key) := by
  unfold placeType
  rw [ensureProject_bare]
  rcases f.ensureProject with ⟨e | project, f₁⟩
  · rfl
  · dsimp only [bareAnswer]
    cases Key.package? key with
    | none => exact f₁.declare_bare key .type (some project)
    | some package =>
        dsimp only
        rw [declare_bare]
        rcases f₁.declare package .package (some project) with ⟨e | h, f₂⟩
        · rfl
        · exact f₂.declare_bare key .type (some package)

/-- Finding the type of a class does the same in bare findings. -/
theorem resolveType_bare (key : String) :
    f.bare.resolveType key = bareAnswer (f.resolveType key) := by
  have found : f.bare.index.find? key = (f.index.find? key).map Element.bare :=
    f.index.find?_bare key
  have placed := f.placeType_bare key
  unfold resolveType
  rw [found]
  cases f.index.find? key with
  | none => exact placed
  | some e =>
      have kinds : e.bare.kind = e.kind := rfl
      dsimp only [Option.map_some]
      rw [kinds]
      split
      · rfl
      · exact placed
      · rfl

/-! ## The last metrics -/

/-- Attaching one of the known metrics commutes with leaving out the custom measures. -/
theorem attachMeasure_bare (h : Handle) {name : String} (named : Metric.isName name = true)
    (value : Measure) :
    f.bare.attachMeasure h name value = (f.attachMeasure h name value).map bare := by
  have attached : f.bare.index.attachTo h name value =
      (f.index.attachTo h name value).map Index.bare := f.index.bare_attachTo h named value
  unfold attachMeasure
  rw [attached]
  cases f.index.attachTo h name value <;> rfl

/-- Attaching a metric commutes with leaving out the custom measures, because the name of a metric
is never a custom one. -/
theorem attachMetric_bare (h : Handle) (metric : Metric) (value : Measure) :
    f.bare.attachMetric h metric value = (f.attachMetric h metric value).map bare :=
  f.attachMeasure_bare h (Metric.isName_name metric) value

variable {f}

/-- Two computations that each commute with leaving out the custom measures do so one after the
other. -/
theorem bind_bare (x : Except IndexError Findings) {k k' : Findings → Except IndexError Findings}
    (commutes : ∀ f, k' f.bare = (k f).map bare) : (x.map bare >>= k') = (x >>= k).map bare := by
  cases x with
  | error e => rfl
  | ok f => exact commutes f

/-- A loop commutes with leaving out the custom measures if every round does. -/
theorem foldlM_bare {step step' : Findings → α → Except IndexError Findings}
    (commutes : ∀ f a, step' f.bare a = (step f a).map bare) (l : List α) (f : Findings) :
    l.foldlM step' f.bare = (l.foldlM step f).map bare := by
  induction l generalizing f with
  | nil => rfl
  | cons a rest ih =>
      rw [List.foldlM_cons, List.foldlM_cons, commutes]
      exact bind_bare (step f a) ih

variable (f)

/-- The depths are attached alike, and the same cycles are reported: a depth is computed from
superclasses and not from measures. -/
theorem attachDepths_bare (i : Inheritance) :
    f.bare.attachDepths i = (f.attachDepths i).map bare := by
  have each (f : Findings) (e : Element) :
      attachDepth i f.bare e.bare = (attachDepth i f e).map bare := by
    have handle : e.bare.handle = e.handle := rfl
    unfold attachDepth
    rw [handle]
    dsimp only
    split
    · exact attachMetric_bare (f.say .warn _) _ _ _
    · exact attachMetric_bare f _ _ _
  have levels : f.bare.index.typeLevel = f.index.typeLevel.map Element.bare :=
    f.index.typeLevel_bare
  unfold attachDepths
  rw [levels, List.foldlM_map, foldlM_bare each]
  exact bind_bare _ fun f => rfl

/-- The numbers of children are attached alike. -/
theorem attachChildCounts_bare (i : Inheritance) :
    f.bare.attachChildCounts i = (f.attachChildCounts i).map bare := by
  have each (f : Findings) (e : Element) :
      f.bare.attachMetric e.bare.handle .noc (.ofCount (i.childCount e.bare.handle)) =
        (f.attachMetric e.handle .noc (.ofCount (i.childCount e.handle))).map bare :=
    f.attachMetric_bare e.handle .noc _
  have levels : f.bare.index.typeLevel = f.index.typeLevel.map Element.bare :=
    f.index.typeLevel_bare
  unfold attachChildCounts
  rw [levels, List.foldlM_map, foldlM_bare each]
  exact bind_bare _ fun f => rfl

/-- The couplings are attached alike, as the graph is the same. -/
theorem attachCouplings_bare : f.bare.attachCouplings = f.attachCouplings.map bare := by
  refine foldlM_bare (fun f h => ?_) f.graph.vertices.toList f
  have afferent : f.bare.attachMetric h .ca (.ofCount (f.bare.graph.afferent h)) =
      (f.attachMetric h .ca (.ofCount (f.graph.afferent h))).map bare := f.attachMetric_bare h .ca _
  unfold attachCoupling
  rw [afferent]
  exact bind_bare _ fun f => f.attachMetric_bare h .ce _

/-- All last metrics are attached alike in bare findings. -/
theorem measure_bare : Analysis.measure f.bare = (Analysis.measure f).map bare := by
  have complete : f.bare.withModel f.bare.toModel.addTypes =
      (f.withModel f.toModel.addTypes).bare :=
    congrArg (Findings.mk · f.config f.superclasses f.report) f.toModel.bare_addTypes
  have inheritance (f : Findings) : f.bare.inheritance = f.inheritance := rfl
  unfold Analysis.measure
  dsimp only
  rw [complete, inheritance, attachDepths_bare]
  refine bind_bare _ fun f => ?_
  rw [attachChildCounts_bare]
  refine bind_bare _ fun f => ?_
  rw [attachCouplings_bare]
  exact bind_bare _ fun f => rfl

/-- A run concludes alike from bare findings. -/
theorem conclude_bare : Analysis.conclude f.bare = bareAnswer (Analysis.conclude f) := by
  have message (f : Findings) : Analysis.closing f.bare = Analysis.closing f := by
    have size : f.bare.index.size = f.index.size := f.index.size_bare
    unfold Analysis.closing
    rw [size]
    rfl
  unfold Analysis.conclude
  rw [measure_bare]
  cases Analysis.measure f with
  | error e => rfl
  | ok f₁ =>
      dsimp only [Except.map]
      rw [message]
      rfl

variable {f}

theorem Agrees.refl (f : Findings) : f.Agrees Eq f := ⟨⟨rfl, rfl⟩, rfl, rfl, rfl⟩

/-- Agreement can be passed on, if reports are to be equal. -/
theorem Agrees.trans {f g k : Findings} (first : f.Agrees Eq g) (second : g.Agrees Eq k) :
    f.Agrees Eq k where
  model := ⟨first.model.index.trans second.model.index, first.model.graph.trans second.model.graph⟩
  config := second.config.trans first.config
  superclasses := second.superclasses.trans first.superclasses
  report := first.report.trans second.report

/-- Outcomes that are equal match. -/
theorem Matches.of_eq {x y : α × Findings} (same : x = y) : Matches Eq x y :=
  ⟨congrArg Prod.fst same, same ▸ .refl x.2⟩

/-- Annotations may be taken away before an edit or after it; only what a message says about the
findings could tell the difference. -/
theorem Edit.bare {change : Findings → α × Findings} (made : Edit issues α change) (f : Findings) :
    Matches Eq (bareAnswer (change f)) (change f.bare) := by
  cases made with
  | say level message => exact ⟨rfl, (Agrees.refl f.bare).say level _ _⟩
  | record allowed => exact .of_eq rfl
  | countFile => exact .of_eq rfl
  | declareFact phase key kind parent =>
      exact .of_eq (f.declareFact_bare phase key kind parent).symm
  | event? h d =>
      refine .of_eq (Prod.ext ?_ rfl)
      have owner : f.bare.index.parent? h = f.index.parent? h := f.index.parent?_bare h
      show SourceScan.event? f.index h d = SourceScan.event? f.bare.index h d
      unfold SourceScan.event? SourceScan.methodOwner?
      rw [owner]
      rfl
  | resolveType key => exact .of_eq (f.resolveType_bare key).symm
  | openClass c type => exact .of_eq (congrArg _ (f.openClass_bare c type).symm)
  | addReference c r =>
      exact .of_eq (congrArg (fun x : Bool × Findings => ((), x.2)) (f.depend_bare ..).symm)
  | conclude => exact .of_eq f.conclude_bare.symm

end Findings

/-! ## Effects of visitors -/

/-- Whether an effect is an annotation: it attaches a measure that is not a metric. -/
def Effect.isCustom : Effect → Bool
  | .attach _ name _ => !Metric.isName name
  | _ => false

/-- Whether an effect is an annotation or a message. -/
def Effect.annotates : Effect → Bool
  | .attach _ name _ => !Metric.isName name
  | .superclass .. => false
  | .say .. => true

/-- A visitor answers without a failure, and with annotations and messages only. -/
def Reaction.annotates (r : Reaction) : Bool := r.failure.isNone && r.effects.all Effect.annotates

namespace Findings

/-- Annotations and messages do not show in the bare findings, so a visitor that only annotates
might as well be absent. -/
theorem bare_annotate {effect : Effect} (annotates : effect.annotates = true) (f : Findings) :
    (effect.apply f).bare.Agrees Eq f.bare := by
  cases effect with
  | attach h name value =>
      have custom : Metric.isName name = false := by
        simpa [Effect.annotates] using annotates
      rcases f.attach_cases h name value with ⟨-, attached⟩ | unknown
      · rw [attached]
        exact ⟨⟨f.index.bare_measured h custom value, rfl⟩, rfl, rfl, rfl⟩
      · rw [unknown]
        exact .refl f.bare
  | superclass h above => cases annotates
  | say level message => exact ⟨⟨rfl, rfl⟩, rfl, rfl, rfl⟩

/-- Any number of annotations leave the bare findings as they were, up to the journal. -/
theorem bare_annotations {effects : List Effect} (annotate : effects.all Effect.annotates = true)
    (f : Findings) : (effects.foldl Effect.apply f).bare.Agrees Eq f.bare := by
  induction effects generalizing f with
  | nil => exact .refl f.bare
  | cons effect rest ih =>
      rw [List.all_cons, Bool.and_eq_true] at annotate
      exact (ih annotate.2 (effect.apply f)).trans (bare_annotate annotate.1 f)

/-- Any other effect can as well be carried out on the bare findings.  Taking annotations away
commutes with it. -/
theorem bare_effect {effect : Effect} (other : effect.isCustom = false) (f : Findings) :
    effect.apply f.bare = (effect.apply f).bare := by
  cases effect with
  | attach h name value =>
      have named : Metric.isName name = true := by
        simpa [Effect.isCustom] using other
      unfold Effect.apply
      dsimp only
      rw [f.attachMeasure_bare h named]
      cases f.attachMeasure h name value <;> rfl
  | superclass h above => rfl
  | say level message => rfl

/-- Effects without a custom measure do the same in bare findings, one after the other. -/
theorem bare_effects {effects : List Effect}
    (others : ∀ effect ∈ effects, effect.isCustom = false) (f : Findings) :
    effects.foldl Effect.apply f.bare = (effects.foldl Effect.apply f).bare := by
  induction effects generalizing f with
  | nil => rfl
  | cons effect rest ih =>
      obtain ⟨first, later⟩ := List.forall_mem_cons.mp others
      rw [List.foldl_cons, bare_effect first, ih later]
      rfl

end Findings

/-! ## The visitors of the analysis itself -/

/-- Whether a metric can be attached is a question about the handle, so the reaction is the same in
bare findings. -/
theorem Reaction.attachMetric_bare (f : Findings) (h : Handle) (metric : Metric)
    (value : Measure) :
    Reaction.attachMetric f.bare h metric value = Reaction.attachMetric f h metric value := by
  unfold attachMetric
  rw [f.attachMetric_bare]
  cases f.attachMetric h metric value <;> rfl

/-- The reaction that attaches a metric attaches no custom measure. -/
theorem Reaction.attachMetric_effects {f : Findings} {h : Handle} {metric : Metric}
    {value : Measure} {effect : Effect}
    (listed : effect ∈ (Reaction.attachMetric f h metric value).effects) :
    effect.isCustom = false := by
  unfold attachMetric at listed
  split at listed
  · rw [List.mem_singleton.mp listed, Effect.isCustom, Metric.isName_name]
    rfl
  · cases listed

namespace Visitor

variable {v : Visitor σ}

/-- The visitors of the analysis itself do not see annotations. -/
theorem react_bare (own : v.isOwn = true) (f : Findings) (e : Event) :
    v.react f.bare e = v.react f e := by
  cases v with
  | external v => cases own
  | response v =>
      have members (key : String) : (f.bare.index.members key .method).map Element.key =
          (f.index.members key .method).map Element.key := f.index.keys_members_bare key .method
      unfold react ResponseVisitor.react
      simp only [members, Reaction.attachMetric_bare]
  | cohesion v =>
      unfold react CohesionVisitor.react
      simp only [Reaction.attachMetric_bare]

/-- The visitors of the analysis make no annotations either: what they attach are metrics, and the
rest of their effects goes to the journal. -/
theorem effects_of_isOwn (own : v.isOwn = true) (f : Findings) (e : Event) :
    ∀ effect ∈ (v.react f e).2.effects, effect.isCustom = false := by
  have measuring := measuring_of_isOwn own f e
  generalize (v.react f e).2 = r at measuring
  cases measuring with
  | silence e => exact List.forall_mem_nil _
  | metric visit metric value => exact fun effect listed => Reaction.attachMetric_effects listed
  | announced visit level message metric value =>
      exact List.forall_mem_cons.mpr
        ⟨rfl, fun effect listed => Reaction.attachMetric_effects listed⟩

end Visitor

end CodeMetrics
