import CodeMetrics.Proofs.Scan.Opening

/-!
# What the operations of a scan leave alone

Whatever a scan does to the model, it does with allowed changes; it attaches no measure, counts no
file and, as long as nothing worse happens, records minor issues only.  `Findings.Enriches` says
this of one step, and `Findings.Keeps` adds that the step concerns no superclass.

Superclasses are recorded in one place, when a class is opened.  There the recorded superclass and
the extension edge come from one dependency: `Findings.Inherits` says how they belong together.
-/

namespace CodeMetrics

/-! ## Issues -/

namespace Issue

/-- Whether a class was decoded a second time. -/
def isDuplicateClass : Issue → Bool
  | .duplicateClass .. => true
  | _ => false

/-- Whether a class could not be placed, because its type, its package or the project is known as
something else. -/
def isRefusedClass : Issue → Bool
  | .kindConflict .bytecode _ _ requested => requested ∈ [Kind.type, .package, .project]
  | _ => false

/-- Whether an issue is about less than a file, an artifact or a class. -/
def isMinor (i : Issue) : Bool :=
  !(i.isParseFailure || i.isDecodeFailure || i.isDuplicateClass || i.isRefusedClass)

/-- A refused dependency is minor. -/
theorem isMinor_notAType (key target : String) (kind : Kind) :
    (ofGraphError .bytecode key (.notAType target kind)).isMinor = true := rfl

end Issue

/-! ## Extension edges -/

namespace Graph

/-- The edges from a class to its superclass. -/
def extensions (g : Graph) : List Edge := g.edges.toList.filter (·.kind == .extension)

/-- The extensions are the edges of their kind, in the order of the graph. -/
theorem mem_extensions_iff {g : Graph} {e : Edge} :
    e ∈ g.extensions ↔ e ∈ g.edges.toList ∧ e.kind = .extension := by
  rw [extensions, List.mem_filter, beq_iff_eq]

/-- A new vertex brings no extension with it. -/
theorem extensions_addVertex (g : Graph) (h : Handle) :
    (g.addVertex h).2.extensions = g.extensions := by
  rw [extensions, edges_addVertex]
  rfl

/-- Making all types vertices adds no extension. -/
theorem extensions_addTypes (g : Graph) (ix : Index) :
    (g.addTypes ix).extensions = g.extensions := by
  rw [extensions, edges_addTypes]
  rfl

/-- Other dependencies are no extensions, neither as new edges nor as uses of old ones. -/
theorem extensions_connect_of_ne {g : Graph} (sound : g.Sound) {s t : Handle} (apart : s ≠ t)
    {kind : EdgeKind} (other : kind ≠ .extension) :
    (g.connect s t kind).2.extensions = g.extensions := by
  unfold extensions
  rw [edges_connect s t kind sound apart]
  split
  · -- a counted use: no extension is the edge in question
    have same : ∀ e : Edge, e.kind = .extension → e.bump (s, t, kind) = e := by
      intro e extension
      refine if_neg fun linked => other ?_
      rw [← extension]
      exact (congrArg (·.2.2) linked).symm
    have kinds : ∀ e : Edge, (e.bump (s, t, kind)).kind = e.kind := fun e =>
      congrArg (·.2.2) (e.link_bump (s, t, kind))
    rw [List.filter_map]
    have tests : ((fun e : Edge => e.kind == .extension) ∘ Edge.bump (s, t, kind)) =
        fun e => e.kind == .extension := by
      funext e
      rw [Function.comp_apply, kinds]
    rw [tests]
    refine (List.map_congr_left fun e listed => ?_).trans (List.map_id _)
    exact same e (beq_iff_eq.mp (List.mem_filter.mp listed).2)
  · rw [List.filter_append]
    have none : [({ source := s, target := t, kind := kind } : Edge)].filter
        (·.kind == .extension) = [] := by
      simpa using other
    rw [none, List.append_nil]

/-- The first extension of a type is a new edge. -/
theorem extensions_connect_new {g : Graph} (sound : g.Sound) {s t : Handle} (apart : s ≠ t)
    (first : ∀ e ∈ g.extensions, e.source ≠ s) :
    (g.connect s t .extension).2.extensions = g.extensions ++ [⟨s, t, .extension, 1⟩] := by
  have new : (s, t, EdgeKind.extension) ∉ g.edges.toList.map Edge.link := by
    intro linked
    obtain ⟨e, listed, same⟩ := List.mem_map.mp linked
    have kind : e.kind = .extension := congrArg (·.2.2) same
    exact first e (mem_extensions_iff.mpr ⟨listed, kind⟩) (congrArg (·.1) same)
  unfold extensions
  rw [edges_connect s t .extension sound apart, if_neg new, List.filter_append]
  rfl

end Graph

namespace Findings

variable {f f' f'' : Findings}

/-- The model evolves; measures and counters stay, and the report gets minor issues only. -/
structure Enriches (f f' : Findings) : Prop where
  evolves : f.toModel.Evolves f'.toModel
  measures : ∀ h, f'.index.measuresOf h = f.index.measuresOf h
  config : f'.config = f.config
  files : f'.report.filesScanned = f.report.filesScanned
  classes : f'.report.classesScanned = f.report.classesScanned
  issues : ∃ minor, f'.report.issues.toList = f.report.issues.toList ++ minor ∧
    ∀ i ∈ minor, i.isMinor = true

/-- Besides, no superclass is recorded and no extension is counted. -/
structure Keeps (f f' : Findings) : Prop extends Enriches f f' where
  superclasses : f'.superclasses = f.superclasses
  extensions : f'.graph.extensions = f.graph.extensions

/-- Besides, nothing is reported. -/
structure Tacit (f f' : Findings) : Prop extends Keeps f f' where
  report : f'.report = f.report

namespace Enriches

/-- Nothing is recorded in the report. -/
theorem quiet (evolves : f.toModel.Evolves f'.toModel)
    (measures : ∀ h, f'.index.measuresOf h = f.index.measuresOf h) (config : f'.config = f.config)
    (report : f'.report = f.report) : f.Enriches f' where
  evolves := evolves
  measures := measures
  config := config
  files := by rw [report]
  classes := by rw [report]
  issues := ⟨[], by rw [report, List.append_nil], List.forall_mem_nil _⟩

/-- Enriching the findings twice enriches them. -/
theorem trans (first : f.Enriches f') (second : f'.Enriches f'') : f.Enriches f'' where
  evolves := first.evolves.trans second.evolves
  measures h := (second.measures h).trans (first.measures h)
  config := second.config.trans first.config
  files := second.files.trans first.files
  classes := second.classes.trans first.classes
  issues := by
    obtain ⟨minor, issues, all⟩ := first.issues
    obtain ⟨minor', issues', all'⟩ := second.issues
    refine ⟨minor ++ minor', by rw [issues', issues, List.append_assoc], ?_⟩
    intro i listed
    exact (List.mem_append.mp listed).elim (all i) (all' i)

/-- Minor issues are passed over by every count of major ones. -/
theorem countP_issues (enriches : f.Enriches f') {test : Issue → Bool}
    (major : ∀ i, i.isMinor = true → test i = false) :
    f'.report.issues.countP test = f.report.issues.countP test := by
  obtain ⟨minor, issues, all⟩ := enriches.issues
  have none : minor.countP test = 0 := by
    rw [List.countP_eq_zero]
    intro i listed
    rw [major i (all i listed)]
    exact Bool.false_ne_true
  rw [← Array.countP_toList, ← Array.countP_toList, issues, List.countP_append, none,
    Nat.add_zero]

end Enriches

namespace Keeps

/-- Findings that are not touched keep everything. -/
theorem refl (f : Findings) : f.Keeps f where
  toEnriches := .quiet (.refl _) (fun _ => rfl) rfl rfl
  superclasses := rfl
  extensions := rfl

/-- What keeps extensions and superclasses may be repeated. -/
theorem trans (first : f.Keeps f') (second : f'.Keeps f'') : f.Keeps f'' where
  toEnriches := first.toEnriches.trans second.toEnriches
  superclasses := second.superclasses.trans first.superclasses
  extensions := second.extensions.trans first.extensions

theorem say (f : Findings) (level : Level) (message : String) : f.Keeps (f.say level message) where
  toEnriches := .quiet (.of_alike ⟨rfl, rfl⟩) (fun _ => rfl) rfl rfl
  superclasses := rfl
  extensions := rfl

/-- A minor issue leaves extensions, superclasses and counters of the report alone; that is what
makes it minor. -/
theorem record (f : Findings) {i : Issue} (minor : i.isMinor = true) : f.Keeps (f.record i) where
  evolves := .of_alike ⟨rfl, rfl⟩
  measures _ := rfl
  config := rfl
  files := rfl
  classes := rfl
  issues := ⟨[i], Array.toList_push, by simpa using minor⟩
  superclasses := rfl
  extensions := rfl

/-- A loop over operations that keep the findings. -/
theorem foldl {α : Type} {op : Findings → α → Findings}
    (step : ∀ (f : Findings) (a : α), f.toModel.Sound → f.Keeps (op f a)) (l : List α)
    (sound : f.toModel.Sound) : f.Keeps (l.foldl op f) := by
  induction l generalizing f with
  | nil => exact .refl f
  | cons a rest ih =>
      have first := step f a sound
      exact first.trans (ih (first.evolves.sound sound))

end Keeps

theorem Tacit.refl (f : Findings) : f.Tacit f := ⟨.refl f, rfl⟩

/-- Two changes without an issue are a change without an issue. -/
theorem Tacit.trans (first : f.Tacit f') (second : f'.Tacit f'') : f.Tacit f'' :=
  ⟨first.toKeeps.trans second.toKeeps, second.report.trans first.report⟩

/-! ## Registrations -/

section Declare

variable {key : String} {kind : Kind} {parent : Option String} {h : Handle}

/-- Registering an element is one allowed change of the model, with the notes of the journal left
out. -/
theorem declare_evolves (f : Findings) (key : String) (kind : Kind) (parent : Option String) :
    f.toModel.Evolves (f.declare key kind parent).2.toModel :=
  .single (.register key kind parent) rfl ⟨rfl, rfl⟩

/-- A registration changes the index and the journal only, if anything.  An issue is recorded by the
caller, and not by the registration. -/
theorem declare_tacit (f : Findings) (key : String) (kind : Kind) (parent : Option String) :
    f.Tacit (f.declare key kind parent).2 := by
  have evolves := f.declare_evolves key kind parent
  rcases declared : f.declare key kind parent with ⟨e | h, f'⟩
  · obtain ⟨-, rfl⟩ := declare_eq_error declared
    exact .refl f'
  · rw [declared] at evolves
    obtain ⟨registered, graph, config, report, superclasses⟩ := declare_eq_ok declared
    refine ⟨⟨.quiet evolves (Index.measuresOf_register registered) config report, superclasses, ?_⟩,
      report⟩
    show f'.graph.extensions = f.graph.extensions
    rw [graph]

/-- A refused registration is a conflict about the reported kind. -/
theorem declare_error_eq (coherent : f.index.Coherent) {e : IndexError}
    (refused : (f.declare key kind parent).1 = .error e) :
    ∃ existing, e = .kindConflict key existing kind := by
  rcases declared : f.declare key kind parent with ⟨e' | h, f'⟩
  · rw [declared] at refused
    cases refused
    obtain ⟨-, existing, -, -, -, rfl⟩ :=
      (Index.register_eq_error_iff coherent).mp (declare_eq_error declared).1
    exact ⟨existing, rfl⟩
  · rw [declared] at refused
    cases refused

/-- A registration of a fact is accepted, or it leaves a minor issue. -/
theorem declareFact_keeps (coherent : f.index.Coherent) {phase : Phase}
    (minor : ∀ existing, (Issue.kindConflict phase key existing kind).isMinor = true) :
    f.Keeps (f.declareFact phase key kind parent).2 := by
  have kept := (f.declare_tacit key kind parent).toKeeps
  unfold declareFact
  rcases declared : f.declare key kind parent with ⟨e | h, f'⟩
  · obtain ⟨existing, rfl⟩ := declare_error_eq coherent (by rw [declared])
    rw [declared] at kept
    exact kept.trans (.record f' (minor existing))
  · rw [declared] at kept
    exact kept

/-- A field or a method of a class. -/
theorem declareMember_keeps (sound : f.toModel.Sound) (key : String)
    (member : kind = .field ∨ kind = .method) (parent : Option String) :
    f.Keeps (f.declareFact .bytecode key kind parent).2 := by
  refine declareFact_keeps sound.index.toCoherent fun existing => ?_
  rcases member with rfl | rfl
  · rfl
  · rfl

end Declare

/-! ## The type of a class -/

section Resolve

variable {key : String} {e : IndexError}

/-- The error is a conflict about a type, a package or the project. -/
def RefusesClass (e : IndexError) : Prop :=
  ∃ conflicting existing requested, e = .kindConflict conflicting existing requested ∧
    requested ∈ [Kind.type, .package, .project]

/-- The issue of a class that cannot be placed is counted among the refused classes. -/
theorem RefusesClass.isRefusedClass (refuses : RefusesClass e) (key : String) :
    (Issue.ofIndexError .bytecode key e).isRefusedClass = true := by
  obtain ⟨conflicting, existing, requested, rfl, listed⟩ := refuses
  exact decide_eq_true listed

/-- Where a type, a package or a project is refused, the reason is a conflict of kinds and refuses
the class. -/
theorem refusesClass_of_declare (sound : f.toModel.Sound) {kind : Kind} {parent : Option String}
    (refused : (f.declare key kind parent).1 = .error e)
    (listed : kind ∈ [Kind.type, .package, .project]) : RefusesClass e := by
  obtain ⟨existing, rfl⟩ := declare_error_eq sound.index.toCoherent refused
  exact ⟨key, existing, kind, rfl, listed⟩

/-- Finding or making the project records no issue.  Where it is refused, the class that needs it
reports this. -/
theorem ensureProject_tacit (f : Findings) : f.Tacit f.ensureProject.2 := by
  unfold ensureProject
  split
  · exact .refl f
  · exact f.declare_tacit f.config.projectKey .project none

/-- If there can be no project, then no class that needs one can be placed. -/
theorem refusesClass_of_ensureProject (sound : f.toModel.Sound)
    (refused : f.ensureProject.1 = .error e) : RefusesClass e := by
  unfold ensureProject at refused
  split at refused
  · cases refused
  · dsimp only at refused
    cases declared : (f.declare f.config.projectKey .project none).1 with
    | ok h =>
        rw [declared] at refused
        cases refused
    | error e' =>
        rw [declared] at refused
        cases refused
        exact refusesClass_of_declare sound declared (by decide)

/-- Whether a class is placed or not, its project and its package may have been registered. -/
theorem placeType_tacit (f : Findings) (key : String) : f.Tacit (f.placeType key).2 := by
  have project := f.ensureProject_tacit
  unfold placeType
  generalize f.ensureProject = result at project ⊢
  obtain ⟨e | owner, f₁⟩ := result
  · exact project
  · dsimp only at project ⊢
    cases Key.package? key with
    | none => exact project.trans (f₁.declare_tacit key .type (some owner))
    | some package =>
        have packaged := project.trans (f₁.declare_tacit package .package (some owner))
        dsimp only
        generalize f₁.declare package .package (some owner) = result at packaged ⊢
        obtain ⟨e | h, f₂⟩ := result
        · exact packaged
        · exact packaged.trans (f₂.declare_tacit key .type (some package))

/-- A type that cannot be placed is refused because of its own kind, that of its package or that of
the project.  All three are conflicts of kinds, and are reported as refused classes. -/
theorem refusesClass_of_placeType (sound : f.toModel.Sound)
    (refused : (f.placeType key).1 = .error e) : RefusesClass e := by
  have project := f.ensureProject_tacit
  have early : ∀ e, f.ensureProject.1 = .error e → RefusesClass e :=
    fun e => refusesClass_of_ensureProject sound
  unfold placeType at refused
  generalize f.ensureProject = result at project early refused
  obtain ⟨e' | owner, f₁⟩ := result
  · cases refused
    exact early e rfl
  · dsimp only at project refused
    have sound₁ := project.evolves.sound sound
    cases packaged : Key.package? key with
    | none =>
        rw [packaged] at refused
        exact refusesClass_of_declare sound₁ refused (by decide)
    | some package =>
        rw [packaged] at refused
        have second := (f₁.declare_tacit package .package (some owner)).evolves.sound sound₁
        have middle : ∀ e, (f₁.declare package .package (some owner)).1 = .error e →
            RefusesClass e :=
          fun e refused => refusesClass_of_declare sound₁ refused (by decide)
        dsimp only at refused
        generalize f₁.declare package .package (some owner) = result at second middle refused
        obtain ⟨e' | h, f₂⟩ := result
        · cases refused
          exact middle e rfl
        · exact refusesClass_of_declare second refused (by decide)

/-- Finding the type of a class reports nothing. -/
theorem resolveType_tacit (f : Findings) (key : String) : f.Tacit (f.resolveType key).2 := by
  unfold resolveType
  split
  · exact f.placeType_tacit key
  · split
    · exact .refl f
    · exact f.placeType_tacit key
    · exact .refl f

/-- A class is refused for what its type, its package or the project is known as. -/
theorem refusesClass_of_resolveType (sound : f.toModel.Sound)
    (refused : (f.resolveType key).1 = .error e) : RefusesClass e := by
  unfold resolveType at refused
  split at refused
  · exact refusesClass_of_placeType sound refused
  · split at refused
    · cases refused
    · exact refusesClass_of_placeType sound refused
    · cases refused
      exact ⟨key, _, .type, rfl, by decide⟩

/-- Findings with a sound model are steady. -/
theorem steady_of_sound (sound : f.toModel.Sound) : f.Steady :=
  ⟨sound.index, sound.graph, sound.founded⟩

/-- A handle that a class is resolved to is a type, and has the key of the class. -/
theorem isType_of_resolveType (sound : f.toModel.Sound) {type : Handle}
    (resolved : f.resolveType key = (.ok type, f')) : f'.index.IsType type key := by
  have resolves := resolveType_resolves "" (steady_of_sound sound) key
  rw [resolved] at resolves
  exact resolves.1

end Resolve

/-! ## Dependencies -/

section Depend

variable {source target : String} {kind : EdgeKind} {s : Handle}

/-- Counting a dependency is one allowed change of the model. -/
theorem depend_evolves (f : Findings) (source target : String) (kind : EdgeKind) :
    f.toModel.Evolves (f.depend source target kind).2.toModel := by
  refine .single (.addEdge source target kind) rfl ?_
  rw [depend_eq]
  simp only [Model.apply]
  rcases f.toModel.addEdge source target kind with ⟨_ | _, m⟩
  · exact ⟨rfl, rfl⟩
  · exact ⟨rfl, rfl⟩

/-- A dependency attaches nothing, and if it is refused, the issue that is reported is a minor one.
-/
theorem depend_enriches (sound : f.toModel.Sound) (source target : String) (kind : EdgeKind) :
    f.Enriches (f.depend source target kind).2 := by
  have evolves := f.depend_evolves source target kind
  rw [depend_eq] at evolves ⊢
  have links := Model.addEdge_links sound.index source target kind
  generalize f.toModel.addEdge source target kind = result at evolves links ⊢
  cases links with
  | self _ => exact .quiet evolves (fun _ => rfl) rfl rfl
  | sourceRefused _ _ =>
      exact (Keeps.record f (Issue.isMinor_notAType target _ _)).toEnriches
  | @targetRefused s m₁ targetKind _ first _ =>
      have measures (h : Handle) : m₁.index.measuresOf h = f.index.measuresOf h :=
        first.placed.measuresOf_eq h
      have resolved : f.Enriches (f.withModel m₁) :=
        .quiet (evolves.trans (.of_alike ⟨rfl, rfl⟩)) measures rfl rfl
      exact resolved.trans
        (Keeps.record (f.withModel m₁) (Issue.isMinor_notAType target _ _)).toEnriches
  | counted _ first second _ =>
      refine .quiet evolves (fun h => ?_) rfl rfl
      exact (second.placed.measuresOf_eq h).trans (first.placed.measuresOf_eq h)

/-- Only a dependency of the kind of extensions can change the extensions.  What else a dependency
does are vertices and placeholders. -/
theorem extensions_depend_of_ne (sound : f.toModel.Sound) (source target : String)
    (other : kind ≠ .extension) :
    (f.depend source target kind).2.graph.extensions = f.graph.extensions := by
  rw [depend_eq]
  have links := Model.addEdge_links sound.index source target kind
  generalize f.toModel.addEdge source target kind = result at links ⊢
  have vertex {m m' : Model} {key : String} {h : Handle} (resolved : m.Resolved key h m') :
      m'.graph.extensions = m.graph.extensions := by
    rw [resolved.graph, Graph.extensions_addVertex]
  cases links with
  | self _ => rfl
  | sourceRefused _ _ => rfl
  | targetRefused _ first _ =>
      have same := vertex first
      exact same
  | counted apart first second _ =>
      have sound₂ := (sound.resolved first).resolved second
      exact (Graph.extensions_connect_of_ne sound₂.graph (first.ends_apart apart second) other).trans
        ((vertex second).trans (vertex first))

/-- A dependency other than an extension. -/
theorem depend_keeps (sound : f.toModel.Sound) (source target : String)
    (other : kind ≠ .extension) : f.Keeps (f.depend source target kind).2 where
  toEnriches := depend_enriches sound source target kind
  superclasses := superclasses_depend f source target kind
  extensions := extensions_depend_of_ne sound source target other

end Depend

/-! ## Opening a class -/

/-- The extension that belongs to a recorded superclass; a class that extends itself has none. -/
def extensionOf (type : Handle) (above : Option Handle) : List Edge :=
  (above.filter (· != type)).toList.map fun superclass => ⟨type, superclass, .extension, 1⟩

/-- There is one extension for a superclass, used once, unless there is no superclass or the class
would extend itself. -/
theorem mem_extensionOf_iff {type : Handle} {above : Option Handle} {e : Edge} :
    e ∈ extensionOf type above ↔
      e.source = type ∧ e.kind = .extension ∧ e.usage = 1 ∧ above = some e.target ∧
        e.target ≠ type := by
  unfold extensionOf
  obtain ⟨source, target, kind, usage⟩ := e
  constructor
  · intro listed
    obtain ⟨superclass, kept, same⟩ := List.mem_map.mp listed
    cases same
    obtain ⟨is, other⟩ := Option.filter_eq_some_iff.mp (Option.mem_toList.mp kept)
    exact ⟨rfl, rfl, rfl, is, by simpa using other⟩
  · rintro ⟨rfl, rfl, rfl, is, other⟩
    refine List.mem_map.mpr ⟨target, ?_, rfl⟩
    exact Option.mem_toList.mpr (Option.filter_eq_some_iff.mpr ⟨is, by simpa using other⟩)

/-- A superclass is recorded, with its extension if the type had none before. -/
structure Inherits (type : Handle) (above : Option Handle) (f f' : Findings) : Prop where
  superclasses : f'.superclasses = f.superclasses.insert type above
  extensions : (∀ e ∈ f.graph.extensions, e.source ≠ type) →
    f'.graph.extensions = f.graph.extensions ++ extensionOf type above

/-- What keeps extensions and superclasses leaves the superclass of the open class in place. -/
theorem Inherits.keeps {type : Handle} {above : Option Handle} (inherits : f.Inherits type above f')
    (keeps : f'.Keeps f'') : f.Inherits type above f'' where
  superclasses := keeps.superclasses.trans inherits.superclasses
  extensions first := keeps.extensions.trans (inherits.extensions first)

section Open

variable {c : ClassFacts} {h : Handle}

/-- Recording a superclass touches neither the index nor the graph. -/
theorem recordSuperclass_enriches (f : Findings) (h : Handle) (above : Option Handle) :
    f.Enriches (f.recordSuperclass h above) :=
  .quiet (.of_alike ⟨rfl, rfl⟩) (fun _ => rfl) rfl rfl

/-- Adding the superclass of a class enriches the findings: a dependency is counted, or refused with
a minor issue. -/
theorem addSuperclass_enriches (sound : f.toModel.Sound) (c : ClassFacts) (h : Handle) :
    f.Enriches (f.addSuperclass c h) := by
  unfold addSuperclass
  split
  · exact f.recordSuperclass_enriches h none
  · next superclass _ =>
      exact (depend_enriches sound c.key superclass .extension).trans
        (recordSuperclass_enriches _ h _)

/-- The superclass is another type or placeholder, and the extension leads to it from the class. -/
theorem inherits_of_placed (sound : f.toModel.Sound) (type : f.index.IsType h c.key)
    {superclass : String} (other : c.key ≠ superclass) {t : Handle}
    (placed : f.index.Placed superclass .external t f'.index)
    (graph : f'.graph = (((f.graph.addVertex h).2.addVertex t).2.connect h t .extension).2)
    (superclasses : f'.superclasses = f.superclasses) :
    f.Inherits h (some t) (f'.recordSuperclass h (f'.index.handle? superclass)) := by
  have found : f'.index.handle? superclass = some t :=
    (sound.index.moves placed.moves).handle?_iff.mpr placed.key?
  have apart : h ≠ t := ends_apart_of_placed type other placed
  refine ⟨by rw [recordSuperclass, superclasses, found], fun first => ?_⟩
  have ready := (sound.graph.addVertex h).addVertex t
  have same : ((f.graph.addVertex h).2.addVertex t).2.extensions = f.graph.extensions := by
    rw [Graph.extensions_addVertex, Graph.extensions_addVertex]
  have extension : extensionOf h (some t) = [⟨h, t, .extension, 1⟩] := by
    simp [extensionOf, apart.symm]
  show f'.graph.extensions = _
  rw [graph, Graph.extensions_connect_new ready apart (by rw [same]; exact first), same, extension]

/-- The superclass and the extension come from one dependency.  If it is counted there are both, if
it is refused there is neither, and a class that extends itself has a superclass without an edge. -/
theorem addSuperclass_inherits (sound : f.toModel.Sound) (type : f.index.IsType h c.key) :
    ∃ above, f.Inherits h above (f.addSuperclass c h) := by
  unfold addSuperclass
  cases c.superclass with
  | none => exact ⟨none, rfl, fun _ => (List.append_nil _).symm⟩
  | some superclass =>
      by_cases same : c.key = superclass
      · -- a class that extends itself is its own superclass
        have found := sound.index.handle?_iff.mpr type.1
        have none : extensionOf h (some h) = [] := by simp [extensionOf]
        rw [← same]
        simp only [depend_self, found, if_true]
        exact ⟨some h, rfl, fun _ => by rw [none, List.append_nil]; rfl⟩
      · rcases @depend_cases f c.key superclass .extension h (steady_of_sound sound) type same with
          ⟨t, f', depended, placed, graph, -, -, superclasses⟩ |
            ⟨t, targetKind, f', e, refused, -, -, -, -, index, graph, -, -, superclasses⟩
        · simp only [depended, if_true]
          exact ⟨some t, inherits_of_placed sound type same placed graph superclasses⟩
        · simp only [refused]
          refine ⟨none, congrArg (·.insert h none) superclasses, fun _ => ?_⟩
          show f'.graph.extensions = _
          rw [graph, Graph.extensions_addVertex]
          exact (List.append_nil _).symm

/-- Entering a class makes its type a vertex, which is an allowed change because a type is known
there. -/
theorem entered_evolves (type : f.index.IsType h c.key) :
    f.toModel.Evolves (f.entered h).toModel := by
  refine .single (.addVertex h) ?_ ⟨rfl, rfl⟩
  obtain ⟨e, found, is⟩ := Option.map_eq_some_iff.mp type.2
  show (f.index.get? h).any (·.kind.isTypeLevel) = true
  rw [found, Option.any_some, is]
  rfl

/-- Interfaces and fields keep the extensions: the edges to interfaces are of another kind, and
fields have none. -/
theorem addMembers_keeps (sound : f.toModel.Sound) (c : ClassFacts) :
    f.Keeps ((f.addInterfaces c).addFields c) := by
  have interfaces : f.Keeps (f.addInterfaces c) :=
    .foldl (fun f key sound => depend_keeps sound c.key key (by decide)) c.interfaces sound
  refine interfaces.trans (.foldl (fun f field sound => ?_) c.fields
    (interfaces.evolves.sound sound))
  exact declareMember_keeps sound (c.fieldKey field) (.inl rfl) (some c.key)

/-- A class that is opened gets its superclass, and what follows concerns no superclass. -/
theorem openClass_inherits (sound : f.toModel.Sound) (type : f.index.IsType h c.key) :
    (f.entered h).Enriches (f.openClass c h) ∧
      ∃ above, (f.entered h).Inherits h above (f.openClass c h) := by
  have sound₁ := (entered_evolves type).sound sound
  have enriches := addSuperclass_enriches sound₁ c h
  have members := addMembers_keeps (enriches.evolves.sound sound₁) c
  obtain ⟨above, inherits⟩ := addSuperclass_inherits sound₁ (c := c) type
  rw [openClass_eq]
  exact ⟨enriches.trans members.toEnriches, above, inherits.keeps members⟩

/-- References keep the extensions.  Calls and accesses are edges of other kinds. -/
theorem addReference_keeps (sound : f.toModel.Sound) (c : ClassFacts) (r : Reference) :
    f.Keeps (f.addReference c r) := by
  rw [addReference_eq]
  refine depend_keeps sound c.key r.owner ?_
  cases r with
  | call _ => exact (by decide : EdgeKind.call ≠ .extension)
  | access _ => exact (by decide : EdgeKind.fieldUse ≠ .extension)

end Open

end Findings

end CodeMetrics
