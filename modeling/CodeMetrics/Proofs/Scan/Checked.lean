import CodeMetrics.Proofs.Graph.Checked
import CodeMetrics.Proofs.Scan.Tasks

/-!
# Runs with checked accesses

A run in which every access by number is checked: to the elements of the index, to the nodes and
edges of the graph, and to the subscribers of the roster.  It is put together like the run itself,
from the operations with checks.  An access out of range ends it with `none`, without a session, as
it would end the program.

`Analysis.checkedRun_eq` says that this never happens.  Whatever the inputs are and whatever visitors
do, the run with checks goes through, and it is the run: the same answer, and the same session to the
last message.  So every access that the run makes, at the moment it is made, is in range.
-/

namespace CodeMetrics

open BytecodeScan (Progress)

variable {σ α β : Type}

/-! ## Findings -/

namespace Findings

/-- Registers an element. -/
def checkedDeclare (f : Findings) (key : String) (kind : Kind) (parent : Option String) :
    Option (Except IndexError Handle × Findings) := do
  let (r, m) ← f.toModel.checkedRegister key kind parent
  return (r, f.withModel m)

/-- Registers the element of a fact.  A refusal becomes an issue. -/
def checkedDeclareFact (f : Findings) (phase : Phase) (key : String) (kind : Kind)
    (parent : Option String) : Option (Option Handle × Findings) := do
  match ← f.checkedDeclare key kind parent with
  | (.ok h, f) => return (some h, f)
  | (.error e, f) => return (none, f.record (.ofIndexError phase key e))

/-- Counts a dependency that the bytecode scan found. -/
def checkedDepend (f : Findings) (source target : String) (kind : EdgeKind) :
    Option (Bool × Findings) := do
  let (r, m) ← f.toModel.checkedAddEdge source target kind
  match r with
  | .ok _ => return (true, f.withModel m)
  | .error e => return (false, (f.withModel m).record (.ofGraphError .bytecode target e))

/-- The key of the project that owns packages. -/
def checkedEnsureProject (f : Findings) : Option (Except IndexError String × Findings) := do
  match ← f.index.checkedProject with
  | some e => return (.ok e.key, f)
  | none =>
    let (r, f') ← f.checkedDeclare f.config.projectKey .project none
    return (r.map fun _ => f'.config.projectKey, f')

/-- Places a new type, or a placeholder that becomes one, in its package. -/
def checkedPlaceType (f : Findings) (key : String) :
    Option (Except IndexError Handle × Findings) := do
  match ← f.checkedEnsureProject with
  | (.error e, f) => return (.error e, f)
  | (.ok project, f) =>
    match Key.package? key with
    | none => f.checkedDeclare key .type (some project)
    | some package =>
      match ← f.checkedDeclare package .package (some project) with
      | (.error e, f) => return (.error e, f)
      | (.ok _, f) => f.checkedDeclare key .type (some package)

/-- Finds or creates the type of a class. -/
def checkedResolveType (f : Findings) (key : String) :
    Option (Except IndexError Handle × Findings) := do
  match ← f.index.checkedFind key with
  | none => f.checkedPlaceType key
  | some e =>
    match e.kind with
    | .type => return (.ok e.handle, f)
    | .external => f.checkedPlaceType key
    | existing => return (.error (.kindConflict key existing .type), f)

/-- Records the superclass of a class. -/
def checkedAddSuperclass (f : Findings) (c : ClassFacts) (type : Handle) : Option Findings :=
  match c.superclass with
  | none => return f.recordSuperclass type none
  | some superclass => do
    let (accepted, f) ← f.checkedDepend c.key superclass .extension
    return f.recordSuperclass type (if accepted then f.index.handle? superclass else none)

/-- Records the interfaces of a class. -/
def checkedAddInterfaces (f : Findings) (c : ClassFacts) : Option Findings :=
  c.interfaces.foldlM (fun f key => do return (← f.checkedDepend c.key key .implementation).2) f

/-- Registers the fields of a class. -/
def checkedAddFields (f : Findings) (c : ClassFacts) : Option Findings :=
  c.fields.foldlM
    (fun f field => do
      return (← f.checkedDeclareFact .bytecode (c.fieldKey field) .field (some c.key)).2) f

/-- Counts a class as scanned and adds it with its supertypes and fields. -/
def checkedOpenClass (f : Findings) (c : ClassFacts) (type : Handle) : Option Findings := do
  let f ← (f.entered type).checkedAddSuperclass c type
  let f ← f.checkedAddInterfaces c
  f.checkedAddFields c

/-- Counts a reference from a class as a dependency on the owner of the member. -/
def checkedAddReference (f : Findings) (c : ClassFacts) (r : Reference) : Option Findings := do
  return (← f.checkedDepend c.key r.owner r.edgeKind).2

/-- Attaches both couplings to one vertex. -/
def checkedAttachCoupling (f : Findings) (h : Handle) : Option (Except IndexError Findings) := do
  match f.attachMetric h .ca (.ofCount (← f.graph.checkedAfferent h)) with
  | .error e => return .error e
  | .ok f => return f.attachMetric h .ce (.ofCount (← f.graph.checkedEfferent h))

/-- Attaches both couplings to some vertices. -/
def checkedAttachCouplings (f : Findings) : List Handle → Option (Except IndexError Findings)
  | [] => return .ok f
  | h :: rest => do
    match ← f.checkedAttachCoupling h with
    | .error e => return .error e
    | .ok f => f.checkedAttachCouplings rest

section Sound

variable {f : Findings} (sound : f.toModel.Sound)
include sound

/-- Registering an element stays in range, because a registration in the index does. -/
theorem checkedDeclare_eq (key : String) (kind : Kind) (parent : Option String) :
    f.checkedDeclare key kind parent = some (f.declare key kind parent) := by
  rw [checkedDeclare, Model.checkedRegister_eq sound.index]
  rfl

/-- Registering the element of a fact stays in range.  Recording the issue of a refusal makes no
access at all. -/
theorem checkedDeclareFact_eq (phase : Phase) (key : String) (kind : Kind)
    (parent : Option String) :
    f.checkedDeclareFact phase key kind parent = some (f.declareFact phase key kind parent) := by
  rw [checkedDeclareFact, checkedDeclare_eq sound, declareFact]
  rcases f.declare key kind parent with ⟨e | h, f'⟩ <;> rfl

/-- Counting a dependency stays in range, whether it is accepted or becomes an issue. -/
theorem checkedDepend_eq (source target : String) (kind : EdgeKind) :
    f.checkedDepend source target kind = some (f.depend source target kind) := by
  rw [checkedDepend, sound.checkedAddEdge_eq, depend_eq]
  rcases f.toModel.addEdge source target kind with ⟨e | n, m⟩ <;> rfl

/-- The project is looked up in the list of its kind, and every handle in such a list is known. -/
theorem checkedEnsureProject_eq : f.checkedEnsureProject = some f.ensureProject := by
  rw [checkedEnsureProject, sound.index.checkedProject_eq, ensureProject, Option.bind_eq_bind,
    Option.bind_some]
  cases f.index.project? with
  | some e => rfl
  | none =>
      dsimp only
      rw [checkedDeclare_eq sound]
      rfl

/-- Placing a type makes up to three registrations, one after the other.  Each of them starts from a
sound model, since the ones before have kept it sound. -/
theorem checkedPlaceType_eq (key : String) : f.checkedPlaceType key = some (f.placeType key) := by
  have sound₁ := f.ensureProject_tacit.evolves.sound sound
  rw [checkedPlaceType, checkedEnsureProject_eq sound, placeType, Option.bind_eq_bind,
    Option.bind_some]
  rcases ensured : f.ensureProject with ⟨e | project, f₁⟩
  · rfl
  · replace sound₁ : f₁.toModel.Sound := by rwa [ensured] at sound₁
    dsimp only
    cases Key.package? key with
    | none => exact checkedDeclare_eq sound₁ key .type (some project)
    | some package =>
        have sound₂ := (f₁.declare_evolves package .package (some project)).sound sound₁
        dsimp only
        rw [checkedDeclare_eq sound₁, Option.bind_eq_bind, Option.bind_some]
        rcases declared : f₁.declare package .package (some project) with ⟨e | h, f₂⟩
        · rfl
        · replace sound₂ : f₂.toModel.Sound := by rwa [declared] at sound₂
          exact checkedDeclare_eq sound₂ key .type (some package)

/-- Finding or creating the type of a class stays in range. -/
theorem checkedResolveType_eq (key : String) :
    f.checkedResolveType key = some (f.resolveType key) := by
  rw [checkedResolveType, sound.index.checkedFind_eq, resolveType, Option.bind_eq_bind,
    Option.bind_some]
  cases f.index.find? key with
  | none => exact checkedPlaceType_eq sound key
  | some e =>
      dsimp only
      cases e.kind with
      | external => exact checkedPlaceType_eq sound key
      | _ => rfl

/-- Recording a superclass stays in range.  The handle that is recorded comes from the table of keys
and is not followed here. -/
theorem checkedAddSuperclass_eq (c : ClassFacts) (type : Handle) :
    f.checkedAddSuperclass c type = some (f.addSuperclass c type) := by
  unfold checkedAddSuperclass addSuperclass
  cases c.superclass with
  | none => rfl
  | some superclass =>
      dsimp only
      rw [checkedDepend_eq sound]
      rfl

/-- A loop over operations with checks that go through. -/
theorem foldlM_eq {op : Findings → α → Findings} {checked : Findings → α → Option Findings}
    (step : ∀ f a, f.toModel.Sound → checked f a = some (op f a) ∧ (op f a).toModel.Sound)
    (l : List α) : l.foldlM checked f = some (l.foldl op f) ∧ (l.foldl op f).toModel.Sound := by
  induction l generalizing f with
  | nil => exact ⟨rfl, sound⟩
  | cons a rest ih =>
      obtain ⟨first, sound₁⟩ := step f a sound
      rw [List.foldlM_cons, first, List.foldl_cons]
      exact ih sound₁

/-- Recording the interfaces stays in range and leaves a sound model, so that the loop over the
fields can start from it. -/
theorem checkedAddInterfaces_eq (c : ClassFacts) :
    f.checkedAddInterfaces c = some (f.addInterfaces c) ∧ (f.addInterfaces c).toModel.Sound := by
  refine foldlM_eq sound (fun f key sound => ⟨?_, ?_⟩) c.interfaces
  · rw [checkedDepend_eq sound]
    rfl
  · exact (f.depend_evolves c.key key .implementation).sound sound

/-- Registering the fields of a class stays in range and leaves a sound model. -/
theorem checkedAddFields_eq (c : ClassFacts) :
    f.checkedAddFields c = some (f.addFields c) ∧ (f.addFields c).toModel.Sound := by
  refine foldlM_eq sound (fun f field sound => ⟨?_, ?_⟩) c.fields
  · rw [checkedDeclareFact_eq sound]
    rfl
  · exact (f.declareFact_evolves .bytecode (c.fieldKey field) .field (some c.key)).sound sound

/-- A class whose type is known is opened within the range. -/
theorem checkedOpenClass_eq {c : ClassFacts} {type : Handle} (isType : f.index.IsType type c.key) :
    f.checkedOpenClass c type = some (f.openClass c type) ∧
      (f.openClass c type).toModel.Sound := by
  have sound₁ := (entered_evolves isType).sound sound
  have sound₂ := (addSuperclass_enriches sound₁ c type).evolves.sound sound₁
  obtain ⟨interfaces, sound₃⟩ := checkedAddInterfaces_eq sound₂ c
  obtain ⟨fields, sound₄⟩ := checkedAddFields_eq sound₃ c
  rw [openClass_eq]
  refine ⟨?_, sound₄⟩
  rw [checkedOpenClass, checkedAddSuperclass_eq sound₁, Option.bind_eq_bind, Option.bind_some,
    interfaces, Option.bind_some, fields]

/-- Counting a reference of a class stays in range. -/
theorem checkedAddReference_eq (c : ClassFacts) (r : Reference) :
    f.checkedAddReference c r = some (f.addReference c r) := by
  rw [checkedAddReference, checkedDepend_eq sound, addReference_eq]
  rfl

end Sound

section Couplings

variable {f f' : Findings}

/-- A metric is attached in the index; the graph is not touched by it. -/
theorem graph_attachMetric {h : Handle} {metric : Metric} {value : Measure}
    (attached : f.attachMetric h metric value = .ok f') : f'.graph = f.graph := by
  unfold attachMetric attachMeasure at attached
  cases indexed : f.index.attachTo h metric.name value with
  | error e => rw [indexed] at attached; cases attached
  | ok index => rw [indexed] at attached; cases attached; rfl

/-- Attaching the couplings of one vertex leaves the graph alone, so those of the next vertex are
read from the same graph. -/
theorem graph_attachCoupling {h : Handle} (attached : f.attachCoupling h = .ok f') :
    f'.graph = f.graph := by
  unfold attachCoupling at attached
  cases first : f.attachMetric h .ca (.ofCount (f.graph.afferent h)) with
  | error e => rw [first] at attached; cases attached
  | ok f₁ =>
      rw [first] at attached
      exact (graph_attachMetric attached).trans (graph_attachMetric first)

/-- The edges at a vertex can be read on both sides, before and after the first of the two metrics
is attached. -/
theorem checkedAttachCoupling_eq (sound : f.graph.Sound) (h : Handle) :
    f.checkedAttachCoupling h = some (f.attachCoupling h) := by
  unfold checkedAttachCoupling attachCoupling
  rw [sound.checkedAfferent_eq, Option.bind_eq_bind, Option.bind_some]
  cases attached : f.attachMetric h .ca (.ofCount (f.graph.afferent h)) with
  | error e => rfl
  | ok f₁ =>
      dsimp only
      rw [graph_attachMetric attached, sound.checkedEfferent_eq]
      show some (f₁.attachMetric h .ce _) = some (f₁.attachMetric h .ce _)
      rw [graph_attachMetric attached]

/-- The graph stays what it is while the couplings are attached. -/
theorem checkedAttachCouplings_eq (sound : f.graph.Sound) (hs : List Handle) :
    f.checkedAttachCouplings hs = some (hs.foldlM attachCoupling f) := by
  induction hs generalizing f with
  | nil => rfl
  | cons h rest ih =>
      rw [checkedAttachCouplings, checkedAttachCoupling_eq sound, List.foldlM_cons,
        Option.bind_eq_bind, Option.bind_some]
      cases attached : f.attachCoupling h with
      | error e => rfl
      | ok f₁ => exact ih (by rwa [graph_attachCoupling attached])

end Couplings

end Findings

namespace Analysis

/-- The metrics that need the complete model. -/
def checkedMeasure (f : Findings) : Option (Except IndexError Findings) := do
  let f := f.withModel f.toModel.addTypes
  match f.attachDepths f.inheritance >>= (·.attachChildCounts f.inheritance) with
  | .error e => return .error e
  | .ok f =>
    match ← f.checkedAttachCouplings f.graph.vertices.toList with
    | .error e => return .error e
    | .ok f => return .ok (f.say .info "Post-pass metrics done in _ms")

/-- **The last metrics stay in range.**  Depths and numbers of children are computed from recorded
superclasses and make no access by number; the couplings read the edges at every vertex. -/
theorem checkedMeasure_eq {f : Findings} (sound : f.toModel.Sound) :
    checkedMeasure f = some (measure f) := by
  have sound₀ : f.toModel.addTypes.Sound := sound.addTypes
  let f₀ := f.withModel f.toModel.addTypes
  obtain ⟨f₁, depths, stamps₁⟩ :=
    Findings.attachDepths_stamps (f := f₀) sound₀.index.toCoherent f₀.inheritance
  have steady₁ := stamps₁.steady (Findings.steady_of_sound sound₀)
  obtain ⟨f₂, counts, stamps₂⟩ :=
    Findings.attachChildCounts_stamps steady₁.index.toCoherent f₀.inheritance
  have graph : f₂.graph.Sound := (stamps₂.steady steady₁).graph
  -- both loops before the couplings end, and leave the graph as it was
  have both : (f₀.attachDepths f₀.inheritance >>= (·.attachChildCounts f₀.inheritance)) = .ok f₂ := by
    rw [depths]
    exact counts
  have whole : measure f =
      (f₂.attachCouplings >>= fun f => .ok (f.say .info "Post-pass metrics done in _ms")) := by
    show (f₀.attachDepths f₀.inheritance >>= fun f => f.attachChildCounts f₀.inheritance >>= _) = _
    rw [depths]
    show (f₁.attachChildCounts f₀.inheritance >>= _) = _
    rw [counts]
    rfl
  show (match f₀.attachDepths f₀.inheritance >>= (·.attachChildCounts f₀.inheritance) with
    | .error e => _
    | .ok f => _) = _
  rw [both, whole]
  dsimp only
  rw [Findings.checkedAttachCouplings_eq graph, Findings.attachCouplings]
  cases List.foldlM Findings.attachCoupling f₂ f₂.graph.vertices.toList <;> rfl

end Analysis

/-! ## Visitors -/

/-- The answer of the visitor of response sets, which looks up the methods of a type. -/
def ResponseVisitor.checkedReact (v : ResponseVisitor) (f : Findings) (e : Event) :
    Option (ResponseVisitor × Reaction) :=
  match e with
  | .type visit => do
    if visit.phase = .bytecode then
      let declared := (← f.index.checkedMembers visit.key .method).map Element.key
      return (⟨some ⟨visit.element, declared.eraseDups⟩⟩, .none)
    else return (v, .none)
  | e => return v.react f e

open Classical in
/-- The answer of a visitor.  An external one may look up whatever it likes, in the index and in the
graph.  So it is asked only while everything is in range. -/
noncomputable def Visitor.checkedReact (v : Visitor σ) (f : Findings) (e : Event) :
    Option (Visitor σ × Reaction) :=
  match v with
  | .response v => do
    let (v, r) ← v.checkedReact f e
    return (.response v, r)
  | .cohesion v => return (Visitor.cohesion v).react f e
  | .external v => if f.toModel.InRange then return (Visitor.external v).react f e else none

/-- When a class is entered, its methods are read one by one.  They are in range, because what an
element lists as its children is known. -/
theorem ResponseVisitor.checkedReact_eq {f : Findings} (sound : f.toModel.Sound)
    (v : ResponseVisitor) (e : Event) : v.checkedReact f e = some (v.react f e) := by
  cases e with
  | type visit =>
      unfold checkedReact react
      dsimp only
      rw [sound.index.checkedMembers_eq]
      split <;> rfl
  | _ => rfl

/-- Every visitor can be asked on a sound model. -/
theorem Visitor.checkedReact_eq {f : Findings} (sound : f.toModel.Sound) (v : Visitor σ)
    (e : Event) : v.checkedReact f e = some (v.react f e) := by
  cases v with
  | response v =>
      unfold checkedReact
      dsimp only
      rw [v.checkedReact_eq sound]
      rfl
  | cohesion v => rfl
  | external v => exact if_pos sound.inRange

/-! ## Scans -/

/-- A scanning computation with checked accesses.  One that is out of range leaves nothing. -/
abbrev CheckedScanning (σ : Type) : Type → Type := ExceptT RunError (StateT (Session σ) Option)

namespace CheckedScanning

/-- Runs a computation on a session. -/
def runOn (x : CheckedScanning σ α) (s : Session σ) : Option (Except RunError α × Session σ) :=
  (ExceptT.run x).run s

/-- A computation that makes no access by number. -/
def free (x : Scanning σ α) : CheckedScanning σ α := ExceptT.mk fun s => some (x.runOn s)

/-- Changes the findings and gives an answer. -/
def edit (change : Findings → Option (α × Findings)) : CheckedScanning σ α := do
  let s ← get
  let (a, f) ← change s.findings
  set { s with findings := f }
  return a

/-- Changes the findings. -/
def alter (change : Findings → Option Findings) : CheckedScanning σ Unit :=
  edit fun f => do return ((), ← change f)

/-- The end of a program that makes an access out of range. -/
def abort : CheckedScanning σ α := ExceptT.mk fun _ => none

/-- Tells the visitor of one slot of an event. -/
noncomputable def call (e : Event) (slot : Nat) : CheckedScanning σ Unit := do
  let s ← get
  match s.roster[slot]? with
  | none => abort
  | some subscriber =>
    let answer ← subscriber.visitor.checkedReact s.findings e
    set (s.answered slot e answer)
    match answer.2.failure with
    | none => pure ()
    | some reason =>
      free (Scanning.alter (·.say .error (Scanning.failureMessage answer.1.name e reason)))
      throw (.visitor answer.1.name e.phase e.kind reason)

/-- Tells all subscribed visitors of an event, in the order of their subscription. -/
noncomputable def dispatch (e : Event) : CheckedScanning σ Unit := do
  let s ← get
  (s.roster.called e.phase e.kind).forM (call e)

end CheckedScanning

namespace SourceScan

/-- What visitors are told of a declaration. -/
def checkedEvent? (ix : Index) (h : Handle) (d : Declaration) : Option (Option Event) :=
  match d.kind with
  | .type => return some (.type { phase := .source, element := h, key := d.key })
  | .method => do
    let owner := (← ix.get? h).parent.or ((Key.owner? d.key).bind ix.handle?)
    return some (.method
      { phase := .source
        element := h
        key := d.key
        owner := owner
        signature := (Key.name? d.key).getD d.key })
  | _ => return none

/-- Applies one declaration. -/
noncomputable def checkedApply (d : Declaration) : CheckedScanning σ Unit := do
  match ← CheckedScanning.edit (·.checkedDeclareFact .source d.key d.kind d.parent) with
  | none => pure ()
  | some h =>
    match ← CheckedScanning.edit fun f => do return (← checkedEvent? f.index h d, f) with
    | none => pure ()
    | some e => CheckedScanning.dispatch e

/-- Scans one file. -/
noncomputable def checkedScanFile (file : SourceFile) : CheckedScanning σ Unit := do
  match file.result with
  | .error e => CheckedScanning.free (Scanning.alter (·.record (.parseFailed file.path e.message)))
  | .ok declarations =>
    CheckedScanning.free
      (Scanning.alter (·.say .debug s!"{file.path}: {declarations.length} facts"))
    declarations.forM checkedApply
    CheckedScanning.free (Scanning.alter countFile)

/-- Scans source files in order. -/
noncomputable def checkedRun (files : List SourceFile) : CheckedScanning σ Unit := do
  CheckedScanning.free (Scanning.alter (·.say .info s!"Source scan: {files.length} files"))
  files.forM checkedScanFile
  CheckedScanning.dispatch (.endScan .source)
  CheckedScanning.free (Scanning.alter fun f => f.say .info (closing f))

end SourceScan

namespace BytecodeScan

/-- Applies a reference of a method, unless an earlier one has the same site. -/
noncomputable def checkedScanReference (c : ClassFacts) (type method : Handle) (methodKey : String)
    (sites : List (Handle × UInt32)) (r : Reference) :
    CheckedScanning σ (List (Handle × UInt32)) := do
  if sites.contains (method, r.site) then
    return sites
  else
    CheckedScanning.dispatch (.reference
      { element := type, typeKey := c.key, methodKey := methodKey, reference := r })
    CheckedScanning.alter (·.checkedAddReference c r)
    return (method, r.site) :: sites

/-- Applies a method of a class with its body. -/
noncomputable def checkedScanMethod (c : ClassFacts) (type : Handle)
    (sites : List (Handle × UInt32)) (m : Method) : CheckedScanning σ (List (Handle × UInt32)) := do
  let key := c.methodKey m
  match ← CheckedScanning.edit (·.checkedDeclareFact .bytecode key .method (some c.key)) with
  | none => return sites
  | some method =>
    CheckedScanning.dispatch (.method
      { phase := .bytecode
        element := method
        key := key
        owner := some type
        signature := m.signature })
    m.body.foldlM (checkedScanReference c type method key) sites

/-- Applies a class whose type is new to this scan. -/
noncomputable def checkedScanMembers (c : ClassFacts) (type : Handle)
    (sites : List (Handle × UInt32)) : CheckedScanning σ (List (Handle × UInt32)) := do
  CheckedScanning.alter (·.checkedOpenClass c type)
  CheckedScanning.dispatch (.type (typeVisit c type))
  let sites ← c.methods.foldlM (checkedScanMethod c type) sites
  CheckedScanning.dispatch (.leaveType (typeVisit c type))
  return sites

/-- Applies a class found in the artifact at `path`. -/
noncomputable def checkedScanClass (path : String) (progress : Progress) (c : ClassFacts) :
    CheckedScanning σ Progress := do
  match ← CheckedScanning.edit (·.checkedResolveType c.key) with
  | .error e =>
    CheckedScanning.free (Scanning.alter (·.record (.ofIndexError .bytecode c.key e)))
    return progress
  | .ok type =>
    if type ∈ progress.types then
      CheckedScanning.free (Scanning.alter (·.record (.duplicateClass path c.key)))
      return progress
    else
      let sites ← checkedScanMembers c type progress.sites
      return ⟨sites, type :: progress.types⟩

/-- Applies the classes of an artifact. -/
noncomputable def checkedScanArtifact (progress : Progress) (a : Artifact) :
    CheckedScanning σ Progress := do
  match a.error with
  | none =>
    CheckedScanning.free
      (Scanning.alter (·.say .debug s!"{a.path}: {a.classes.length} classes"))
    a.classes.foldlM (checkedScanClass a.path) progress
  | some e =>
    let progress ← a.classes.foldlM (checkedScanClass a.path) progress
    CheckedScanning.free
      (Scanning.alter (·.record (.decodeFailed a.path e.message a.classes.length)))
    return progress

/-- Scans artifacts in order. -/
noncomputable def checkedRun (artifacts : List Artifact) : CheckedScanning σ Unit := do
  CheckedScanning.free
    (Scanning.alter (·.say .info s!"Bytecode scan: {artifacts.length} artifacts"))
  let _ ← artifacts.foldlM checkedScanArtifact {}
  CheckedScanning.dispatch (.endScan .bytecode)
  CheckedScanning.free (Scanning.alter fun f => f.say .info (closing f))

end BytecodeScan

namespace Analysis

/-- Applies the metrics that need the complete model. -/
def checkedFinish : CheckedScanning σ Unit := do
  match ← CheckedScanning.edit fun f => do return (← checkedMeasure f, f) with
  | .error e => throw (.index e)
  | .ok f => CheckedScanning.free (Scanning.alter fun _ => f.say .info (closing f))

/-- A run with checked accesses, with the session it leaves behind. -/
noncomputable def checkedRun (config : Config) (visitors : List (External σ × Subscription))
    (sources : List SourceFile) (artifacts : List Artifact) :
    Option (Except RunError Unit × Session σ) :=
  CheckedScanning.runOn (do
    SourceScan.checkedRun sources
    BytecodeScan.checkedRun artifacts
    checkedFinish) (start config visitors)

end Analysis

/-! ## Runs stay in range -/

/-- What changes neither the index nor the graph leaves a sound model. -/
theorem Model.Sound.alike {m m' : Model} (sound : m.Sound) (alike : m.Alike m') : m'.Sound :=
  (Model.Evolves.of_alike alike).sound sound

/-- The computation with checks goes through from here as the one without them does, and leaves a
sound model. -/
structure CheckedScanning.Mirrors (checked : CheckedScanning σ α) (x : Scanning σ α)
    (s : Session σ) : Prop where
  goes : checked.runOn s = some (x.runOn s)
  sound : (x.runOn s).2.findings.toModel.Sound

namespace CheckedScanning

variable {s t : Session σ} {checked : CheckedScanning σ α} {x : Scanning σ α} {a : α}

/-- A computation that goes through hands its answer and its session to the next one. -/
theorem runOn_bind_of_ok {k : α → CheckedScanning σ β}
    (first : checked.runOn s = some (.ok a, t)) : (checked >>= k).runOn s = (k a).runOn t := by
  have run : (ExceptT.run checked).run s = pure (.ok a, t) := first
  simp only [runOn, ExceptT.run_bind, StateT.run_bind, run, pure_bind]

/-- A visitor that fails ends the computation with its error, as it does without checks.  It must
not be taken for an access out of range, which leaves no session. -/
theorem runOn_bind_of_error {k : α → CheckedScanning σ β} {e : RunError}
    (first : checked.runOn s = some (.error e, t)) :
    (checked >>= k).runOn s = some (.error e, t) := by
  have run : (ExceptT.run checked).run s = pure (.error e, t) := first
  simp only [runOn, ExceptT.run_bind, StateT.run_bind, run, pure_bind]
  rfl

/-- A change that goes through gives its answer and leaves its findings. -/
theorem runOn_edit {change : Findings → Option (α × Findings)} {f : Findings}
    (changed : change s.findings = some (a, f)) :
    (edit change).runOn s = some (.ok a, { s with findings := f }) := by
  unfold edit
  rw [runOn_bind_of_ok (t := s) (a := s) rfl]
  have lifted : (liftM (change s.findings) : CheckedScanning σ (α × Findings)).runOn s =
      some (.ok (a, f), s) := by
    rw [changed]
    rfl
  rw [runOn_bind_of_ok lifted]
  rfl

/-- A call to a subscriber that can be asked: its answer is carried out, and then only its failure,
if there is one, is left to be dealt with. -/
theorem runOn_call {slot : Nat} {subscriber : Subscriber σ} {e : Event}
    {answer : Visitor σ × Reaction} (found : s.roster[slot]? = some subscriber)
    (asked : subscriber.visitor.checkedReact s.findings e = some answer) :
    (call e slot).runOn s =
      (match answer.2.failure with
        | none => Pure.pure ()
        | some reason => do
          free (Scanning.alter (·.say .error (Scanning.failureMessage answer.1.name e reason)))
          throw (.visitor answer.1.name e.phase e.kind reason) :
        CheckedScanning σ Unit).runOn (s.answered slot e answer) := by
  unfold call
  rw [runOn_bind_of_ok (t := s) (a := s) rfl]
  simp only [found]
  rw [asked, runOn_bind_of_ok rfl, runOn_bind_of_ok rfl]

namespace Mirrors

/-- An answer without any access goes through, from a sound model. -/
theorem pure (sound : s.findings.toModel.Sound) (a : α) :
    Mirrors (Pure.pure a) (Pure.pure a : Scanning σ α) s :=
  ⟨rfl, sound⟩

/-- One computation after the other.  The second one matters only where the first one has ended
without an error, with a sound model. -/
theorem bind {k' : α → CheckedScanning σ β} {k : α → Scanning σ β} (first : Mirrors checked x s)
    (rest : ∀ a t, x.runOn s = (.ok a, t) → t.findings.toModel.Sound → Mirrors (k' a) (k a) t) :
    Mirrors (checked >>= k') (x >>= k) s := by
  obtain ⟨goes, sound⟩ := first
  rcases run : x.runOn s with ⟨e | a, t⟩
  · rw [run] at goes sound
    have stopped := Scanning.runOn_bind_of_error (k := k) run
    exact ⟨by rw [stopped, runOn_bind_of_error goes], by rwa [stopped]⟩
  · rw [run] at goes sound
    have onward := Scanning.runOn_bind_of_ok (k := k) run
    obtain ⟨goes', sound'⟩ := rest a t run sound
    exact ⟨by rw [onward, runOn_bind_of_ok goes, goes'], by rwa [onward]⟩

/-- A change of the findings that stays in range. -/
theorem edit {checked : Findings → Option (α × Findings)} {change : Findings → α × Findings}
    (goes : checked s.findings = some (change s.findings))
    (sound : (change s.findings).2.toModel.Sound) :
    Mirrors (CheckedScanning.edit checked) (Scanning.edit change) s :=
  ⟨runOn_edit goes, sound⟩

/-- The answer of a change and the findings it leaves. -/
theorem of_runOn_edit {change : Findings → α × Findings}
    (run : (Scanning.edit change).runOn s = (.ok a, t)) : change s.findings = (a, t.findings) := by
  rw [Scanning.runOn_edit, Prod.mk.injEq, Except.ok.injEq] at run
  obtain ⟨rfl, rfl⟩ := run
  rfl

/-- A change of the findings without an answer. -/
theorem alter {checked : Findings → Option Findings} {change : Findings → Findings}
    (goes : checked s.findings = some (change s.findings))
    (sound : (change s.findings).toModel.Sound) :
    Mirrors (CheckedScanning.alter checked) (Scanning.alter change) s := by
  show Mirrors (CheckedScanning.edit _) (Scanning.edit fun f => ((), change f)) s
  refine edit ?_ sound
  rw [goes]
  rfl

/-- A change that makes no access. -/
theorem free {change : Findings → Findings} (sound : (change s.findings).toModel.Sound) :
    Mirrors (CheckedScanning.free (Scanning.alter change)) (Scanning.alter change) s :=
  ⟨rfl, sound⟩

/-- A loop goes through if every round does, from any session with a sound model. -/
theorem foldlM {checked : β → α → CheckedScanning σ β} {step : β → α → Scanning σ β}
    (round : ∀ b a (t : Session σ), t.findings.toModel.Sound → Mirrors (checked b a) (step b a) t)
    (l : List α) (b : β) (sound : s.findings.toModel.Sound) :
    Mirrors (l.foldlM checked b) (l.foldlM step b) s := by
  induction l generalizing b s with
  | nil => exact .pure sound b
  | cons a rest ih =>
      rw [List.foldlM_cons, List.foldlM_cons]
      exact (round b a s sound).bind fun b t _ sound => ih b sound

/-- A loop without an answer goes through if every round does. -/
theorem forM {checked : α → CheckedScanning σ Unit} {step : α → Scanning σ Unit}
    (round : ∀ a (t : Session σ), t.findings.toModel.Sound → Mirrors (checked a) (step a) t)
    (l : List α) (sound : s.findings.toModel.Sound) :
    Mirrors (l.forM checked) (l.forM step) s := by
  induction l generalizing s with
  | nil => exact .pure sound ()
  | cons a rest ih => exact (round a s sound).bind fun _ t _ sound => ih sound

/-- A call to a subscriber that is there.  The visitor is asked on a sound model, and its effects,
whatever they are, leave a sound model.  The roster keeps its size. -/
theorem call (sound : s.findings.toModel.Sound) (e : Event) {slot : Nat}
    (inside : slot < s.roster.size) :
    Mirrors (CheckedScanning.call e slot) (Scanning.call e slot) s ∧
      ((Scanning.call e slot).runOn s).2.roster.size = s.roster.size := by
  have found : s.roster[slot]? = some s.roster[slot] := Array.getElem?_eq_getElem inside
  have asked := runOn_call found (Visitor.checkedReact_eq sound s.roster[slot].visitor e)
  have sound' := (s.findings.effects_evolve
    (s.roster[slot].visitor.react s.findings e).2.effects).sound sound
  have size : (s.answered slot e (s.roster[slot].visitor.react s.findings e)).roster.size =
      s.roster.size := Array.size_modify
  cases failure : (s.roster[slot].visitor.react s.findings e).2.failure with
  | none =>
      have quiet := Scanning.runOn_call_of_quiet found failure
      rw [failure] at asked
      refine ⟨⟨?_, ?_⟩, ?_⟩
      · rw [asked, quiet]
        rfl
      · rw [quiet]
        exact sound'
      · rw [quiet]
        exact size
  | some reason =>
      -- besides the effects there is a message, which changes neither index nor graph
      have stopped := Scanning.runOn_call_of_failure found failure
      rw [failure] at asked
      refine ⟨⟨?_, ?_⟩, ?_⟩
      · rw [asked, stopped]
        rfl
      · rw [stopped]
        exact Model.Sound.alike sound' ⟨rfl, rfl⟩
      · rw [stopped]
        exact size

/-- The calls of one event, one after the other.  The roster keeps its size, so the slots that were
chosen at the beginning are valid to the end. -/
theorem calls (sound : s.findings.toModel.Sound) (e : Event) {slots : List Nat}
    (there : ∀ slot ∈ slots, slot < s.roster.size) :
    Mirrors (slots.forM (CheckedScanning.call e)) (slots.forM (Scanning.call e)) s := by
  induction slots generalizing s with
  | nil => exact .pure sound ()
  | cons slot rest ih =>
      obtain ⟨first, others⟩ := List.forall_mem_cons.mp there
      obtain ⟨mirrors, size⟩ := call sound e first
      refine mirrors.bind fun _ t run sound => ih sound fun slot listed => ?_
      rw [run] at size
      rw [size]
      exact others slot listed

/-- All calls of an event go to subscribers that are there. -/
theorem dispatch (sound : s.findings.toModel.Sound) (e : Event) :
    Mirrors (CheckedScanning.dispatch e) (Scanning.dispatch e) s := by
  have there (slot : Nat) (called : slot ∈ s.roster.called e.phase e.kind) :=
    Roster.lt_of_mem_called called
  obtain ⟨goes, sound'⟩ := calls sound e there
  rw [← Scanning.runOn_dispatch] at goes sound'
  exact ⟨goes, sound'⟩

end Mirrors

end CheckedScanning

open CheckedScanning (Mirrors)

namespace SourceScan

variable {s : Session σ}

/-- What visitors are told of a declaration is looked up at a handle that was just given out. -/
theorem checkedEvent?_eq {ix : Index} {h : Handle} (known : ix.Knows h) (d : Declaration) :
    checkedEvent? ix h d = some (event? ix h d) := by
  obtain ⟨e, found⟩ := Index.knows_iff_get?.mp known
  unfold checkedEvent? event? methodOwner?
  rw [found, Index.parent?_of_get? found]
  cases d.kind <;> rfl

/-- One declaration: it is registered, looked up again, and told of.  The handle that is looked up
is the one that the registration has given. -/
theorem checkedApply_mirrors (sound : s.findings.toModel.Sound) (d : Declaration) :
    Mirrors (checkedApply d) (applyDeclaration d) s := by
  rw [applyDeclaration_eq]
  refine (Mirrors.edit (Findings.checkedDeclareFact_eq sound ..)
    ((s.findings.declareFact_evolves ..).sound sound)).bind fun declared t run sound' => ?_
  cases declared with
  | none => exact .pure sound' ()
  | some h =>
      have accepted := Mirrors.of_runOn_edit run
      have known := Findings.knows_of_declareFact sound.index.toCoherent
        (congrArg Prod.fst accepted)
      rw [accepted] at known
      refine (Mirrors.edit ?_ sound').bind fun told u _ sound => ?_
      · rw [checkedEvent?_eq known]
        rfl
      · cases told with
        | none => exact .pure sound ()
        | some e => exact .dispatch sound e

/-- One file.  A file that could not be parsed becomes an issue, which makes no access. -/
theorem checkedScanFile_mirrors (sound : s.findings.toModel.Sound) (file : SourceFile) :
    Mirrors (checkedScanFile file) (scanFile file) s := by
  unfold checkedScanFile scanFile
  cases file.result with
  | error e => exact .free (sound.alike ⟨rfl, rfl⟩)
  | ok declarations =>
      refine (Mirrors.free (sound.alike ⟨rfl, rfl⟩)).bind fun _ t _ sound => ?_
      refine (Mirrors.forM (fun d t sound => checkedApply_mirrors sound d) declarations sound).bind
        fun _ u _ sound => ?_
      exact .free (sound.alike ⟨rfl, rfl⟩)

/-- The source scan stays in range. -/
theorem checkedRun_mirrors (sound : s.findings.toModel.Sound) (files : List SourceFile) :
    Mirrors (checkedRun files) (run files) s := by
  refine (Mirrors.free (sound.alike ⟨rfl, rfl⟩)).bind fun _ t _ sound => ?_
  refine (Mirrors.forM (fun file t sound => checkedScanFile_mirrors sound file) files sound).bind
    fun _ t _ sound => ?_
  refine (Mirrors.dispatch sound _).bind fun _ t _ sound => ?_
  exact .free (sound.alike ⟨rfl, rfl⟩)

end SourceScan

namespace BytecodeScan

variable {s : Session σ}

/-- One reference.  Visitors are told of it before its dependency is counted, so the second step
starts from whatever model they have left, which is sound again. -/
theorem checkedScanReference_mirrors (sound : s.findings.toModel.Sound) (c : ClassFacts)
    (type method : Handle) (methodKey : String) (sites : List (Handle × UInt32)) (r : Reference) :
    Mirrors (checkedScanReference c type method methodKey sites r)
      (scanReference c type method methodKey sites r) s := by
  unfold checkedScanReference scanReference
  by_cases listed : (method, r.site) ∈ sites
  · rw [if_pos (List.contains_iff_mem.mpr listed), if_pos listed]
    exact .pure sound sites
  · rw [if_neg fun found => listed (List.contains_iff_mem.mp found), if_neg listed]
    refine (Mirrors.dispatch sound _).bind fun _ t _ sound => ?_
    refine (Mirrors.alter (Findings.checkedAddReference_eq sound c r)
      ((Findings.addReference_keeps sound c r).evolves.sound sound)).bind fun _ u _ sound => ?_
    exact .pure sound _

/-- One method with its body. -/
theorem checkedScanMethod_mirrors (sound : s.findings.toModel.Sound) (c : ClassFacts)
    (type : Handle) (sites : List (Handle × UInt32)) (m : Method) :
    Mirrors (checkedScanMethod c type sites m) (scanMethod c type sites m) s := by
  refine (Mirrors.edit (Findings.checkedDeclareFact_eq sound ..)
    ((s.findings.declareFact_evolves ..).sound sound)).bind fun declared t _ sound => ?_
  cases declared with
  | none => exact .pure sound sites
  | some method =>
      refine (Mirrors.dispatch sound _).bind fun _ u _ sound => ?_
      exact .foldlM (fun sites r t sound => checkedScanReference_mirrors sound ..) m.body sites sound

/-- One class whose type was found: its facts, its methods, and the two events around them. -/
theorem checkedScanMembers_mirrors (sound : s.findings.toModel.Sound) {c : ClassFacts}
    {type : Handle} (isType : s.findings.index.IsType type c.key)
    (sites : List (Handle × UInt32)) :
    Mirrors (checkedScanMembers c type sites) (scanMembers c type sites) s := by
  obtain ⟨opens, sound'⟩ := Findings.checkedOpenClass_eq sound isType
  refine (Mirrors.alter opens sound').bind fun _ t _ sound => ?_
  refine (Mirrors.dispatch sound _).bind fun _ t _ sound => ?_
  refine (Mirrors.foldlM (fun sites m t sound => checkedScanMethod_mirrors sound c type sites m)
    c.methods sites sound).bind fun sites t _ sound => ?_
  exact (Mirrors.dispatch sound _).bind fun _ t _ sound => .pure sound sites

/-- One class.  If its type cannot be found, or was met before, there is an issue and no further
access. -/
theorem checkedScanClass_mirrors (sound : s.findings.toModel.Sound) (path : String)
    (progress : Progress) (c : ClassFacts) :
    Mirrors (checkedScanClass path progress c) (scanClass path progress c) s := by
  refine (Mirrors.edit (Findings.checkedResolveType_eq sound c.key)
    ((s.findings.resolveType_tacit c.key).evolves.sound sound)).bind
    fun resolved t run sound' => ?_
  cases resolved with
  | error e =>
      exact (Mirrors.free (sound'.alike ⟨rfl, rfl⟩)).bind fun _ u _ sound => .pure sound progress
  | ok type =>
      have isType := Findings.isType_of_resolveType sound (Mirrors.of_runOn_edit run)
      dsimp only
      split
      · exact (Mirrors.free (sound'.alike ⟨rfl, rfl⟩)).bind fun _ u _ sound => .pure sound progress
      · exact (checkedScanMembers_mirrors sound' isType progress.sites).bind
          fun sites u _ sound => .pure sound _

/-- One artifact, decoded completely or up to a failure.  The classes before a failure are applied
first. -/
theorem checkedScanArtifact_mirrors (sound : s.findings.toModel.Sound) (progress : Progress)
    (a : Artifact) : Mirrors (checkedScanArtifact progress a) (scanArtifact progress a) s := by
  have classes (t : Session σ) (sound : t.findings.toModel.Sound) :
      Mirrors (a.classes.foldlM (checkedScanClass a.path) progress)
        (a.classes.foldlM (scanClass a.path) progress) t :=
    .foldlM (fun progress c t sound => checkedScanClass_mirrors sound a.path progress c) a.classes
      progress sound
  unfold checkedScanArtifact scanArtifact
  cases a.error with
  | none =>
      exact (Mirrors.free (sound.alike ⟨rfl, rfl⟩)).bind fun _ t _ sound => classes t sound
  | some e =>
      refine (classes s sound).bind fun progress t _ sound => ?_
      exact (Mirrors.free (sound.alike ⟨rfl, rfl⟩)).bind fun _ u _ sound => .pure sound progress

/-- The bytecode scan stays in range. -/
theorem checkedRun_mirrors (sound : s.findings.toModel.Sound) (artifacts : List Artifact) :
    Mirrors (checkedRun artifacts) (run artifacts) s := by
  refine (Mirrors.free (sound.alike ⟨rfl, rfl⟩)).bind fun _ t _ sound => ?_
  refine (Mirrors.foldlM (fun progress a t sound => checkedScanArtifact_mirrors sound progress a)
    artifacts {} sound).bind fun _ t _ sound => ?_
  refine (Mirrors.dispatch sound _).bind fun _ t _ sound => ?_
  exact .free (sound.alike ⟨rfl, rfl⟩)

end BytecodeScan

namespace Analysis

/-- The end of a run stays in range, and there is no error that it could end with: all elements that
metrics are attached to are known. -/
theorem checkedFinish_mirrors {s : Session σ} (sound : s.findings.toModel.Sound) :
    Mirrors checkedFinish finish s := by
  obtain ⟨f, measured, closes⟩ := measure_closes (Findings.steady_of_sound sound)
  have sound' : f.toModel.Sound := closes.evolves.sound sound.addTypes
  have last : (finish : Scanning σ Unit).runOn s =
      (Scanning.alter fun _ => f.say .info (closing f)).runOn s := by
    have read : (Scanning.findings : Scanning σ Findings).runOn s = (.ok s.findings, s) := rfl
    unfold finish
    rw [Scanning.runOn_bind_of_ok read, measured]
  have first : (CheckedScanning.edit fun f => do return (← checkedMeasure f, f)).runOn s =
      some (.ok (.ok f), s) := by
    refine CheckedScanning.runOn_edit ?_
    rw [checkedMeasure_eq sound, measured]
    rfl
  refine ⟨?_, ?_⟩
  · rw [last, checkedFinish, CheckedScanning.runOn_bind_of_ok first]
    rfl
  · rw [last]
    exact Model.Sound.alike sound' ⟨rfl, rfl⟩

/-- **Every access is in range.**  With all accesses checked, a run goes through and is the run. -/
theorem checkedRun_eq (config : Config) (visitors : List (External σ × Subscription))
    (sources : List SourceFile) (artifacts : List Artifact) :
    checkedRun config visitors sources artifacts =
      some (runSession config visitors sources artifacts) := by
  have sound : (start config visitors).findings.toModel.Sound := .empty
  refine Mirrors.goes (x := scanning sources artifacts) ?_
  refine (SourceScan.checkedRun_mirrors sound sources).bind fun _ t _ sound => ?_
  refine (BytecodeScan.checkedRun_mirrors sound artifacts).bind fun _ t _ sound => ?_
  exact checkedFinish_mirrors sound

end Analysis

end CodeMetrics
