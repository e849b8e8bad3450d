import CodeMetrics.Proofs.Graph.History
import CodeMetrics.Proofs.Index.Records
import CodeMetrics.Proofs.Scan.Outline

/-!
# Operations of a scan as deeds

Every operation of the bytecode scan on the findings either does its deed or records a dispute.
`Findings.Applies` says this for a list of deeds, and composes: it is the only thing that later
modules know about registrations and dependencies.

* `Findings.Steady` holds of the findings at any time, disputed or not.
* `Findings.Reflects` says that the model is what a list of deeds makes of it.
* `Findings.Tracks` relates findings to a list of deeds in both cases: as long as nothing is
  disputed they reflect the deeds, and a dispute means that the deeds are not consistent.

So whether a scan is disputed depends on its deeds only, and not on the order in which they are
done.
-/

namespace CodeMetrics

/-- Whether an issue is the refusal of a compiled fact. -/
def Issue.isDispute : Issue → Bool
  | .kindConflict .bytecode .. => true
  | .rejected .. => true
  | _ => false

/-- Whatever the index refuses during the bytecode scan counts as a dispute. -/
theorem Issue.isDispute_ofIndexError (key : String) (e : IndexError) :
    (Issue.ofIndexError .bytecode key e).isDispute = true := by
  cases e <;> rfl

/-- Whatever the graph refuses during the bytecode scan counts as a dispute. -/
theorem Issue.isDispute_ofGraphError (key : String) (e : GraphError) :
    (Issue.ofGraphError .bytecode key e).isDispute = true := by
  cases e with
  | notAType => rfl
  | index e => exact isDispute_ofIndexError key e

/-- The element of a handle is the type of a key. -/
def Index.IsType (ix : Index) (h : Handle) (key : String) : Prop :=
  ix.key? h = some key ∧ ix.kind? h = some .type

/-- A type stays a type, under the same handle and key. -/
theorem Index.IsType.grows {ix ix' : Index} {h : Handle} {key : String} (type : ix.IsType h key)
    (grows : ix.Grows ix') : ix'.IsType h key := by
  refine ⟨grows.key_kept type.1, ?_⟩
  rcases grows.kind_kept type.2 with kept | ⟨impossible, -⟩
  · exact kept
  · cases impossible

/-- A type can be an end of a dependency. -/
theorem Index.IsType.isTypeLevel {ix : Index} {h : Handle} {key : String} (type : ix.IsType h key) :
    ix.IsTypeLevel h :=
  ⟨.type, type.2, rfl⟩

/-! ## The ends of a dependency -/

namespace Model

variable {m : Model} {key : String}

/-- A type that is known is resolved to itself. -/
theorem resolve_of_isType (coherent : m.index.Coherent) {h : Handle}
    (type : m.index.IsType h key) : m.resolve key = (.ok h, (m.addVertex h).2) := by
  obtain ⟨named, is⟩ := type
  obtain ⟨e, found⟩ := Index.knows_iff_get?.mp (.of_key? named)
  have same := coherent.handle_eq found
  subst same
  rw [Index.key?_of_get? found, Option.some.injEq] at named
  rw [Index.kind?_of_get? found, Option.some.injEq] at is
  have located := coherent.find?_eq_some_iff.mpr ⟨found, named⟩
  unfold resolve
  rw [located]
  simp [is, Kind.isTypeLevel]

end Model

namespace Findings

/-! ## Findings and deeds -/

/-- The index and the graph are sound, and the graph is over the types of the index. -/
structure Steady (f : Findings) : Prop where
  index : f.index.Sound
  graph : f.graph.Sound
  founded : f.graph.FoundedOn f.index

/-- A compiled fact was refused. -/
def Disputed (f : Findings) : Prop := ∃ i ∈ f.report.issues.toList, i.isDispute = true

/-- The model is what the deeds make of it, and `project` owns the packages. -/
structure Reflects (f : Findings) (project : String) (ds : List Deed) : Prop where
  records : f.index.Records (ds.map Deed.declaration)
  edges : f.graph.keyedEdges f.index = tally (counted ds)
  project : f.index.projectKey?.getD f.config.projectKey = project

/-- The findings reflect the deeds, or they are disputed and the deeds are not consistent. -/
def Tracks (f : Findings) (project : String) (ds : List Deed) : Prop :=
  f.Disputed ∧ ¬ Consistent ds ∨ ¬ f.Disputed ∧ f.Reflects project ds

/-- The index grows, measures stay, and what is added to the report are disputes. -/
structure Extends (f f' : Findings) : Prop where
  grows : f.index.Grows f'.index
  measures : ∀ h, f'.index.measuresOf h = f.index.measuresOf h
  config : f'.config = f.config
  issues : ∃ disputes, f'.report.issues.toList = f.report.issues.toList ++ disputes ∧
    ∀ i ∈ disputes, i.isDispute = true

/-- The findings after some deeds: extended, steady, and still tracked. -/
structure Applies (project : String) (ds : List Deed) (f f' : Findings) : Prop
    extends Extends f f' where
  steady : f'.Steady
  tracks : ∀ {before : List Deed}, f.Tracks project before → f'.Tracks project (before ++ ds)

variable {f f' f'' : Findings} {project : String} {ds ds' : List Deed}

/-- As long as nothing is disputed, the findings reflect what was done. -/
theorem Tracks.reflects (tracks : f.Tracks project ds) (undisputed : ¬ f.Disputed) :
    f.Reflects project ds := by
  rcases tracks with ⟨disputed, -⟩ | ⟨-, reflects⟩
  · exact absurd disputed undisputed
  · exact reflects

/-- There is a dispute exactly if what was done is not consistent.  So whether a scan reports one
can be decided from the facts alone. -/
theorem Tracks.disputed_iff (tracks : f.Tracks project ds) (steady : f.Steady) :
    f.Disputed ↔ ¬ Consistent ds := by
  rcases tracks with ⟨disputed, conflict⟩ | ⟨undisputed, reflects⟩
  · exact iff_of_true disputed conflict
  · refine iff_of_false undisputed (not_not.mpr ?_)
    intro d listed d' listed' same
    -- both fit the kind that is registered for the key
    obtain ⟨h, kind, named, is, fits⟩ := reflects.records.present (List.mem_map_of_mem listed)
    have fits' := reflects.records.fits steady.index.toCoherent (List.mem_map_of_mem listed')
      (by rw [named, same]) is
    rcases fits with rfl | ⟨rfl, external⟩ <;> rcases fits' with same' | ⟨type', external'⟩
    · exact .inl same'
    · exact .inr ⟨by rw [type']; rfl, by rw [external']; rfl⟩
    · exact .inr ⟨by rw [external]; rfl, by rw [← same']; rfl⟩
    · exact .inl (external.trans external'.symm)

namespace Extends

/-- Nothing is added to the report. -/
theorem quiet (grows : f.index.Grows f'.index)
    (measures : ∀ h, f'.index.measuresOf h = f.index.measuresOf h)
    (config : f'.config = f.config) (issues : f'.report.issues = f.report.issues) :
    f.Extends f' where
  grows := grows
  measures := measures
  config := config
  issues := ⟨[], by rw [issues, List.append_nil], List.forall_mem_nil _⟩

theorem refl (f : Findings) : f.Extends f := .quiet (.refl _) (fun _ => rfl) rfl rfl

/-- Extensions of the findings, one after the other, are an extension. -/
theorem trans (first : f.Extends f') (second : f'.Extends f'') : f.Extends f'' where
  grows := first.grows.trans second.grows
  measures h := (second.measures h).trans (first.measures h)
  config := second.config.trans first.config
  issues := by
    obtain ⟨disputes, issues, all⟩ := first.issues
    obtain ⟨disputes', issues', all'⟩ := second.issues
    refine ⟨disputes ++ disputes', by rw [issues', issues, List.append_assoc], ?_⟩
    intro i listed
    exact (List.mem_append.mp listed).elim (all i) (all' i)

/-- A dispute is never taken back. -/
theorem disputed (extension : f.Extends f') (disputed : f.Disputed) : f'.Disputed := by
  obtain ⟨disputes, issues, -⟩ := extension.issues
  obtain ⟨i, listed, dispute⟩ := disputed
  exact ⟨i, by rw [issues]; exact List.mem_append_left _ listed, dispute⟩

/-- Without a dispute nothing is added to the report. -/
theorem issues_eq (extension : f.Extends f') (undisputed : ¬ f'.Disputed) :
    f'.report.issues.toList = f.report.issues.toList := by
  obtain ⟨disputes, issues, all⟩ := extension.issues
  cases disputes with
  | nil => rw [issues, List.append_nil]
  | cons i rest =>
      refine absurd ⟨i, ?_, all i List.mem_cons_self⟩ undisputed
      rw [issues]
      exact List.mem_append_right _ List.mem_cons_self

end Extends

/-- A conflict stays, whatever is done afterwards. -/
theorem not_consistent_append (before ds : List Deed) (conflict : ¬ Consistent before) :
    ¬ Consistent (before ++ ds) :=
  fun consistent => conflict (consistent.mono (List.subset_append_left before ds))

namespace Applies

/-- Nothing is done, and nothing changes. -/
theorem refl (steady : f.Steady) : f.Applies project [] f where
  toExtends := .refl f
  steady := steady
  tracks tracks := by rw [List.append_nil]; exact tracks

/-- Two lists of deeds, applied one after the other, are applied as one list. -/
theorem trans (first : Applies project ds f f') (second : Applies project ds' f' f'') :
    Applies project (ds ++ ds') f f'' where
  toExtends := first.toExtends.trans second.toExtends
  steady := second.steady
  tracks tracks := by
    rw [← List.append_assoc]
    exact second.tracks (first.tracks tracks)

/-- What is disputed stays so; only findings that reflect their deeds need a proof. -/
theorem of_tracks (steady : f'.Steady) (extension : f.Extends f')
    (tracks : ∀ {before}, ¬ f.Disputed → f.Reflects project before →
      f'.Tracks project (before ++ ds)) : Applies project ds f f' where
  toExtends := extension
  steady := steady
  tracks {before} tracked := by
    rcases tracked with ⟨disputed, conflict⟩ | ⟨undisputed, reflects⟩
    · exact .inl ⟨extension.disputed disputed, not_consistent_append before ds conflict⟩
    · exact tracks undisputed reflects

/-- Deeds that are done without an issue. -/
theorem of_reflects (steady : f'.Steady) (extension : f.Extends f')
    (issues : f'.report.issues = f.report.issues)
    (reflects : ∀ {before}, f.Reflects project before → f'.Reflects project (before ++ ds)) :
    Applies project ds f f' := by
  refine .of_tracks steady extension fun undisputed reflected => .inr ⟨?_, reflects reflected⟩
  rw [Disputed, issues]
  exact undisputed

end Applies

/-! ## Refusals -/

/-- Recording an issue extends the findings. -/
theorem extends_record (f : Findings) {i : Issue} (dispute : i.isDispute = true) :
    f.Extends (f.record i) where
  grows := .refl _
  measures _ := rfl
  config := rfl
  issues := ⟨[i], Array.toList_push, by simpa using dispute⟩

/-- Where a dispute is recorded there is one from then on. -/
theorem disputed_record (f : Findings) {i : Issue} (dispute : i.isDispute = true) :
    (f.record i).Disputed := by
  refine ⟨i, ?_, dispute⟩
  have pushed : (f.record i).report.issues.toList = f.report.issues.toList ++ [i] :=
    Array.toList_push
  rw [pushed]
  exact List.mem_append_right _ List.mem_cons_self

/-- Deeds that are refused, because they contradict what was done before. -/
theorem Applies.record (steady : f.Steady) {i : Issue} (dispute : i.isDispute = true)
    (conflict : ∀ {before}, f.Reflects project before → ¬ Consistent (before ++ ds)) :
    Applies project ds f (f.record i) where
  toExtends := f.extends_record dispute
  steady := ⟨steady.index, steady.graph, steady.founded⟩
  tracks {before} tracks := by
    refine .inl ⟨f.disputed_record dispute, ?_⟩
    rcases tracks with ⟨-, conflict⟩ | ⟨-, reflects⟩
    · exact not_consistent_append before ds conflict
    · exact conflict reflects

/-- A declaration that does not fit makes deeds inconsistent. -/
theorem not_consistent_of_misfit {before : List Deed} {d : Deed} (listed : d ∈ ds)
    (misfit : ∃ d' ∈ before.map Deed.declaration, d'.key = d.declaration.key ∧
      ¬ d'.kind.Fits d.declaration.kind) : ¬ Consistent (before ++ ds) := by
  obtain ⟨d', listed', same, misfit⟩ := misfit
  obtain ⟨deed, done, rfl⟩ := List.mem_map.mp listed'
  exact fun consistent => misfit
    (consistent deed (List.mem_append_left _ done) d (List.mem_append_right _ listed) same)

/-! ## Registrations -/

section Declare

variable {key : String} {kind : Kind} {parent : Option String} {h : Handle}

/-- A registration changes the index and the journal only. -/
theorem declare_eq_ok (ok : f.declare key kind parent = (.ok h, f')) :
    f.index.register key kind parent = .ok (h, f'.index) ∧ f'.graph = f.graph ∧
      f'.config = f.config ∧ f'.report = f.report ∧ f'.superclasses = f.superclasses := by
  unfold declare Model.register at ok
  cases registered : f.index.register key kind parent with
  | error e => rw [registered] at ok; cases ok
  | ok result => rw [registered] at ok; cases ok; exact ⟨rfl, rfl, rfl, rfl, rfl⟩

/-- A registration that is refused leaves the findings as they were. -/
theorem declare_eq_error {e : IndexError} (refused : f.declare key kind parent = (.error e, f')) :
    f.index.register key kind parent = .error e ∧ f' = f := by
  unfold declare Model.register at refused
  cases registered : f.index.register key kind parent with
  | error e' => rw [registered] at refused; cases refused; exact ⟨rfl, rfl⟩
  | ok result => rw [registered] at refused; cases refused

/-- The index after a registration whose owner is known. -/
theorem declare_placed (steady : f.Steady)
    (ownerKnown : f.index.OwnerKnown parent)
    (ok : f.declare key kind parent = (.ok h, f')) :
    ∃ base, f.index.Placed key kind h base ∧
      f'.index = base.settle h (f.index.adoption key parent) :=
  Index.register_placed steady.index.toCoherent
    (Index.adoption_ne_placeholder steady.index.toCoherent ownerKnown) (declare_eq_ok ok).1

/-- An accepted registration keeps the findings steady and extends them. -/
theorem declare_extends (steady : f.Steady)
    (ownerKnown : f.index.OwnerKnown parent)
    (ok : f.declare key kind parent = (.ok h, f')) : f'.Steady ∧ f.Extends f' := by
  obtain ⟨registered, graph, config, report, -⟩ := declare_eq_ok ok
  have moves := Index.register_moves steady.index registered
  have grows := Index.Grows.of_moves moves
  refine ⟨⟨steady.index.moves moves, graph ▸ steady.graph, graph ▸ steady.founded.grows grows⟩, ?_⟩
  refine .quiet grows (fun g => ?_) config (by rw [report])
  obtain ⟨base, placed, settled⟩ := declare_placed steady ownerKnown ok
  rw [settled, Index.measuresOf_settle, placed.measuresOf_eq]

/-- An accepted registration leads to an element of its key. -/
theorem declare_key? (steady : f.Steady)
    (ownerKnown : f.index.OwnerKnown parent)
    (ok : f.declare key kind parent = (.ok h, f')) : f'.index.key? h = some key := by
  obtain ⟨base, placed, settled⟩ := declare_placed steady ownerKnown ok
  rw [settled, Index.key?_settle, placed.key?]

/-- An accepted type is a type. -/
theorem declare_isType (steady : f.Steady)
    (ownerKnown : f.index.OwnerKnown parent)
    (ok : f.declare key .type parent = (.ok h, f')) : f'.index.IsType h key := by
  refine ⟨declare_key? steady ownerKnown ok, ?_⟩
  obtain ⟨base, placed, settled⟩ := declare_placed steady ownerKnown ok
  rw [settled, Index.kind?_settle]
  rcases placed.kind? with is | ⟨-, impossible⟩
  · exact is
  · cases impossible

/-- An accepted registration does its deed.  A project is left out here, as it may change which
project owns packages. -/
theorem declare_applies (steady : f.Steady)
    (ownerKnown : f.index.OwnerKnown parent)
    (other : kind ≠ .project) (ok : f.declare key kind parent = (.ok h, f')) :
    f.Applies project [.declare ⟨kind, key, parent⟩] f' := by
  obtain ⟨registered, graph, config, report, -⟩ := declare_eq_ok ok
  obtain ⟨steady', extension⟩ := declare_extends steady ownerKnown ok
  refine .of_reflects steady' extension (by rw [report]) fun {before} reflects => ⟨?_, ?_, ?_⟩
  · rw [List.map_append]
    exact reflects.records.register steady.index ownerKnown registered
  · rw [graph, Graph.keyedEdges_grows (steady.founded.anchored steady.graph) extension.grows,
      reflects.edges, counted_append]
    exact congrArg tally (List.append_nil _).symm
  · obtain ⟨base, placed, settled⟩ := declare_placed steady ownerKnown ok
    rw [config, settled, Index.projectKey?_settle,
      placed.projectKey?_eq steady.index.toCoherent other]
    exact reflects.project

/-- A refused registration contradicts what was done before. -/
theorem declare_conflict (steady : f.Steady) {e : IndexError}
    (refused : f.declare key kind parent = (.error e, f')) {before : List Deed}
    (reflects : f.Reflects project before) (listed : .declare ⟨kind, key, parent⟩ ∈ ds) :
    ¬ Consistent (before ++ ds) :=
  not_consistent_of_misfit listed
    (reflects.records.refused steady.index.toCoherent (declare_eq_error refused).1)

/-- A registration does its deed, or changes nothing and contradicts what was done before. -/
theorem declare_cases (project key : String) {kind : Kind} (other : kind ≠ .project)
    (steady : f.Steady) (ownerKnown : f.index.OwnerKnown parent) :
    (∃ h f', f.declare key kind parent = (.ok h, f') ∧
        f.Applies project [.declare ⟨kind, key, parent⟩] f') ∨
      ∃ e, f.declare key kind parent = (.error e, f) ∧ ∀ {i : Issue}, i.isDispute = true →
        ∀ rest, f.Applies project (.declare ⟨kind, key, parent⟩ :: rest) (f.record i) := by
  rcases declared : f.declare key kind parent with ⟨e | h, f'⟩
  · obtain ⟨-, rfl⟩ := declare_eq_error declared
    refine .inr ⟨e, rfl, fun dispute rest => .record steady dispute fun reflects => ?_⟩
    exact declare_conflict steady declared reflects List.mem_cons_self
  · exact .inl ⟨h, f', rfl, declare_applies steady ownerKnown other declared⟩

/-- A registration of a compiled fact does its deed or records a dispute. -/
theorem declareFact_applies (steady : f.Steady)
    (ownerKnown : f.index.OwnerKnown parent)
    (other : kind ≠ .project) :
    f.Applies project [.declare ⟨kind, key, parent⟩]
      (f.declareFact .bytecode key kind parent).2 := by
  unfold declareFact
  rcases declare_cases project key other steady ownerKnown with
    ⟨h, f', ok, applies⟩ | ⟨e, refused, conflict⟩
  · rw [ok]
    exact applies
  · rw [refused]
    exact conflict (Issue.isDispute_ofIndexError key e) []

/-- A fact that was registered has its element under its key. -/
theorem declareFact_eq_some (steady : f.Steady)
    (ownerKnown : f.index.OwnerKnown parent)
    (accepted : (f.declareFact .bytecode key kind parent).1 = some h) :
    (f.declareFact .bytecode key kind parent).2.index.key? h = some key := by
  unfold declareFact at accepted ⊢
  split at accepted
  · next g f' ok =>
      cases accepted
      exact declare_key? steady ownerKnown ok
  · cases accepted

/-- A fact that was not registered is disputed. -/
theorem declareFact_eq_none (refused : (f.declareFact .bytecode key kind parent).1 = none) :
    (f.declareFact .bytecode key kind parent).2.Disputed := by
  unfold declareFact at refused ⊢
  split at refused
  · cases refused
  · next e f' failed => exact f'.disputed_record (Issue.isDispute_ofIndexError key e)

/-- No registration records a superclass. -/
@[simp] theorem superclasses_declareFact (f : Findings) (phase : Phase) (key : String) (kind : Kind)
    (parent : Option String) :
    (f.declareFact phase key kind parent).2.superclasses = f.superclasses := by
  unfold declareFact
  split
  · next ok => exact (declare_eq_ok ok).2.2.2.2
  · next refused =>
      obtain ⟨-, rfl⟩ := declare_eq_error refused
      rfl

end Declare

/-! ## Dependencies -/

section Depend

variable {source target : String} {kind : EdgeKind} {s : Handle}

/-- A dependency is counted in the model, and what the graph refuses becomes an issue about its
target. -/
theorem depend_eq (f : Findings) (source target : String) (kind : EdgeKind) :
    f.depend source target kind =
      match f.toModel.addEdge source target kind with
      | (.ok _, m) => (true, f.withModel m)
      | (.error e, m) => (false, (f.withModel m).record (.ofGraphError .bytecode target e)) := by
  unfold depend
  rcases f.toModel.addEdge source target kind with ⟨_ | _, m⟩ <;> rfl

/-- A dependency of a type on itself changes nothing. -/
theorem depend_self (f : Findings) (key : String) (kind : EdgeKind) :
    f.depend key key kind = (true, f) := by
  simp [depend, Model.addEdge, withModel]

/-- A dependency on another type resolves its target and is counted, or its target is refused.  The
source is known as a type, so it is never refused. -/
theorem depend_cases (steady : f.Steady) (type : f.index.IsType s source)
    (other : source ≠ target) :
    (∃ (t : Handle) (f' : Findings), f.depend source target kind = (true, f') ∧
        f.index.Placed target .external t f'.index ∧
        f'.graph = (((f.graph.addVertex s).2.addVertex t).2.connect s t kind).2 ∧
        f'.config = f.config ∧ f'.report = f.report ∧ f'.superclasses = f.superclasses) ∨
      ∃ (t : Handle) (targetKind : Kind) (f' : Findings) (e : Issue),
        f.depend source target kind = (false, f'.record e) ∧ e.isDispute = true ∧
        f.index.key? t = some target ∧ f.index.kind? t = some targetKind ∧
        targetKind.isTypeLevel = false ∧ f'.index = f.index ∧
        f'.graph = (f.graph.addVertex s).2 ∧ f'.config = f.config ∧ f'.report = f.report ∧
        f'.superclasses = f.superclasses := by
  have first := Model.resolve_of_isType steady.index.toCoherent type
  have coherent : (f.toModel.addVertex s).2.index.Coherent := steady.index.toCoherent
  rw [depend_eq, Model.addEdge, if_neg other, first]
  rcases Model.resolve_cases coherent target with
    ⟨t, m', second, resolved⟩ | ⟨targetKind, second, ⟨t, named, is⟩, low⟩
  · refine .inl ⟨t, f.withModel { m' with graph := (m'.graph.connect s t kind).2 }, ?_,
      resolved.placed, ?_, rfl, rfl, rfl⟩
    · simp only [second]
    · simp only [withModel, resolved.graph]
      rfl
  · exact .inr ⟨t, targetKind, f.withModel (f.toModel.addVertex s).2,
      .ofGraphError .bytecode target (.notAType target targetKind), by simp only [second],
      Issue.isDispute_ofGraphError target _, named, is, low, rfl, rfl, rfl, rfl, rfl⟩

/-- A type is not the target of its dependency on another key. -/
theorem ends_apart_of_placed (type : f.index.IsType s source) (other : source ≠ target) {t : Handle}
    (placed : f.index.Placed target .external t f'.index) : s ≠ t := by
  rintro rfl
  have kept := (Index.Grows.of_moves placed.moves).key_kept type.1
  rw [placed.key?, Option.some.injEq] at kept
  exact other kept.symm

/-- A dependency whose target is there or becomes a placeholder.  The deed adds a declaration for
the target and one use to the tally. -/
theorem applies_of_connected (steady : f.Steady) (type : f.index.IsType s source)
    (other : source ≠ target) {t : Handle} (placed : f.index.Placed target .external t f'.index)
    (graph : f'.graph = (((f.graph.addVertex s).2.addVertex t).2.connect s t kind).2)
    (config : f'.config = f.config) (report : f'.report = f.report) :
    f.Applies project [.count ⟨source, target, kind⟩] f' := by
  have moves := placed.moves
  have grows := Index.Grows.of_moves moves
  have sound := steady.index.moves moves
  have targetLevel : f'.index.IsTypeLevel t := by
    rcases placed.kind? with is | ⟨is, -⟩
    · exact ⟨_, is, rfl⟩
    · exact ⟨_, is, rfl⟩
  -- the graph before the edge is counted: both ends are vertices
  have ready := (steady.graph.addVertex s).addVertex t
  have founded :=
    ((steady.founded.addVertex type.isTypeLevel).grows grows).addVertex targetLevel
  have counted_before : ((f.graph.addVertex s).2.addVertex t).2.keyedEdges f'.index =
      f.graph.keyedEdges f.index := by
    rw [Graph.keyedEdges_addVertex, Graph.keyedEdges_addVertex,
      Graph.keyedEdges_grows (steady.founded.anchored steady.graph) grows]
  have steady' : f'.Steady := by
    refine ⟨sound, ?_, ?_⟩
    · rw [graph]
      exact ready.connect s t kind
    · rw [graph]
      refine founded.connect ?_ ?_ kind
      · simp [Graph.contains_addVertex]
      · simp [Graph.contains_addVertex]
  have extension : f.Extends f' := .quiet grows placed.measuresOf_eq config (by rw [report])
  refine .of_reflects steady' extension (by rw [report]) fun {before} reflects => ⟨?_, ?_, ?_⟩
  · rw [List.map_append]
    exact reflects.records.placed steady.index placed
  · rw [graph, counted_append]
    exact Graph.keyedEdges_connect ready sound.toCoherent
      (ends_apart_of_placed type other placed) (grows.key_kept type.1) placed.key?
      (counted_before.trans reflects.edges)
  · rw [config, placed.projectKey?_eq steady.index.toCoherent (by decide)]
    exact reflects.project

/-- A vertex is added for a type or placeholder, and nothing else happens.  This is no deed, as the
exported edges are the same. -/
theorem applies_of_addVertex (steady : f.Steady) (level : f.index.IsTypeLevel s)
    (index : f'.index = f.index) (graph : f'.graph = (f.graph.addVertex s).2)
    (config : f'.config = f.config) (issues : f'.report.issues = f.report.issues) :
    f.Applies project [] f' := by
  have steady' : f'.Steady := by
    refine ⟨index ▸ steady.index, graph ▸ steady.graph.addVertex s, ?_⟩
    rw [index, graph]
    exact steady.founded.addVertex level
  have extension : f.Extends f' :=
    .quiet (index ▸ .refl _) (fun h => by rw [index]) config issues
  refine .of_reflects steady' extension issues fun {before} reflects => ⟨?_, ?_, ?_⟩
  · rw [index, List.append_nil]
    exact reflects.records
  · rw [index, graph, Graph.keyedEdges_addVertex, List.append_nil]
    exact reflects.edges
  · rw [index, config]
    exact reflects.project

/-- A dependency of a known type does its deed or records a dispute.  On itself a type has no
dependency, and the deed is empty. -/
theorem depend_applies (steady : f.Steady) (type : f.index.IsType s source) (target : String)
    (kind : EdgeKind) :
    f.Applies project (Deed.depend ⟨source, target, kind⟩) (f.depend source target kind).2 := by
  unfold Deed.depend
  by_cases other : source = target
  · subst other
    rw [depend_self, if_pos rfl]
    exact .refl steady
  · rw [if_neg other]
    rcases depend_cases steady type other with
      ⟨t, f', depended, placed, graph, config, report, -⟩ |
        ⟨t, targetKind, f', e, refused, dispute, named, is, low, index, graph, config, report, -⟩
    · rw [depended]
      exact applies_of_connected steady type other placed graph config report
    · rw [refused]
      have unchanged : f.Applies project [] f' :=
        applies_of_addVertex steady type.isTypeLevel index graph config (by rw [report])
      refine unchanged.trans (.record unchanged.steady dispute fun {before} reflects => ?_)
      refine not_consistent_of_misfit List.mem_cons_self ?_
      refine reflects.records.misfit (index ▸ named) (index ▸ is) ?_
      rw [Deed.declaration, Kind.fits_external_iff, low]
      exact Bool.false_ne_true

/-- An accepted dependency has a known target. -/
theorem depend_eq_true (steady : f.Steady) (type : f.index.IsType s source)
    (accepted : (f.depend source target kind).1 = true) :
    ∃ t, (f.depend source target kind).2.index.key? t = some target := by
  by_cases other : source = target
  · subst other
    rw [depend_self]
    exact ⟨s, type.1⟩
  · rcases depend_cases steady type other with
      ⟨t, f', depended, placed, -⟩ | ⟨t, targetKind, f', e, refused, -⟩
    · rw [depended]
      exact ⟨t, placed.key?⟩
    · rw [refused] at accepted
      cases accepted

/-- A refused dependency is a dispute. -/
theorem depend_eq_false (refused : (f.depend source target kind).1 = false) :
    (f.depend source target kind).2.Disputed := by
  rw [depend_eq] at refused ⊢
  generalize f.toModel.addEdge source target kind = result at refused ⊢
  obtain ⟨e | n, m⟩ := result
  · exact disputed_record _ (Issue.isDispute_ofGraphError target e)
  · cases refused

/-- No dependency records a superclass; this is done by the operation that adds the superclass of a
class. -/
@[simp] theorem superclasses_depend (f : Findings) (source target : String) (kind : EdgeKind) :
    (f.depend source target kind).2.superclasses = f.superclasses := by
  rw [depend_eq]
  rcases f.toModel.addEdge source target kind with ⟨_ | _, m⟩ <;> rfl

end Depend

end Findings

end CodeMetrics
