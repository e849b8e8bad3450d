import CodeMetrics.Proofs.Scan.Deeds

/-!
# Placing and opening a class

A class is placed before it is opened: the project, its package and its type are registered, unless
the type is known.  The first of the three that is refused is the end of it, and the class is left
out with one dispute.  Once the type is there, opening the class records its supertypes and its
fields, and each of these is refused on its own.

Both are lists of deeds.  For an outline whose deeds the findings track, they are `Outline.placing`
and `ClassFacts.opening`.
-/

namespace CodeMetrics

namespace Findings

variable {f f' : Findings} {project key : String} {ds : List Deed} {h : Handle}

/-! ## The project -/

/-- The key of the project that owns packages, registered or not. -/
def owningProject (f : Findings) : String := f.index.projectKey?.getD f.config.projectKey

theorem owningProject_of_some {e : Element} (found : f.index.project? = some e) :
    f.owningProject = e.key := by
  rw [owningProject, ← Index.map_key_project?, found]
  rfl

theorem owningProject_of_none (missing : f.index.project? = none) :
    f.owningProject = f.config.projectKey := by
  rw [owningProject, ← Index.map_key_project?, missing]
  rfl

/-- The first project is an element of the kind project. -/
theorem project?_named (steady : f.Steady) {e : Element} (found : f.index.project? = some e) :
    f.index.key? e.handle = some e.key ∧ f.index.kind? e.handle = some .project := by
  obtain ⟨h, listed, found⟩ := Option.bind_eq_some_iff.mp found
  have same := steady.index.handle_eq found
  subst same
  refine ⟨Index.key?_of_get? found, steady.index.mem_handlesOf.mp ?_⟩
  exact Array.mem_toList_iff.mpr (Array.mem_of_getElem? listed)

/-- The project is there already, or it is registered, or its key is known as something else.  In
the last case the deeds of every class that needs it are in conflict. -/
theorem ensureProject_cases (steady : f.Steady) :
    (∃ f', f.ensureProject = (.ok f.owningProject, f') ∧
        f.Applies f.owningProject [.declare (.project f.owningProject)] f' ∧
        f'.index.OwnerKnown (some f.owningProject)) ∨
      ∃ e, f.ensureProject = (.error e, f) ∧ ∀ {i : Issue}, i.isDispute = true →
        ∀ rest, f.Applies f.owningProject (.declare (.project f.owningProject) :: rest)
          (f.record i) := by
  unfold ensureProject
  cases found : f.index.project? with
  | some e =>
      -- the project is there, and declaring it once more changes nothing
      obtain ⟨named, is⟩ := project?_named steady found
      rw [owningProject_of_some found]
      refine .inl ⟨f, rfl, ?_, .of_key? named⟩
      refine .of_reflects steady (.refl f) rfl fun reflects => ⟨?_, ?_, reflects.project⟩
      · rw [List.map_append]
        exact reflects.records.again named is
      · rw [reflects.edges, counted_append]
        exact congrArg tally (List.append_nil _).symm
  | none =>
      rw [owningProject_of_none found]
      rcases declared : f.declare f.config.projectKey .project none with ⟨e | h, f'⟩
      · obtain ⟨-, rfl⟩ := declare_eq_error declared
        refine .inr ⟨e, rfl, fun dispute rest => ?_⟩
        exact .record steady dispute fun reflects =>
          declare_conflict steady declared reflects List.mem_cons_self
      · have noOwner := Index.OwnerKnown.unreported f.index
        obtain ⟨registered, graph, config, report, -⟩ := declare_eq_ok declared
        obtain ⟨steady', extension⟩ := declare_extends steady noOwner declared
        refine .inl ⟨f', by simp only [config]; rfl, ?_,
          .of_key? (declare_key? steady noOwner declared)⟩
        refine .of_reflects steady' extension (by rw [report]) fun reflects => ⟨?_, ?_, ?_⟩
        · rw [List.map_append]
          exact reflects.records.register steady.index noOwner registered
        · rw [graph, Graph.keyedEdges_grows (steady.founded.anchored steady.graph) extension.grows,
            reflects.edges, counted_append]
          exact congrArg tally (List.append_nil _).symm
        · obtain ⟨base, placed, settled⟩ := declare_placed steady noOwner declared
          rw [settled, Index.projectKey?_settle,
            placed.projectKey?_first steady.index.toCoherent found]
          rfl

/-! ## Placement -/

/-- Only the owning project can be the one that findings reflect. -/
theorem Applies.placement
    (applies : f.Applies f.owningProject (Deed.placement f.owningProject key) f') :
    f.Applies project (Deed.placement project key) f' := by
  refine .of_tracks applies.steady applies.toExtends fun undisputed reflects => ?_
  have owning : f.owningProject = project := reflects.project
  subst owning
  exact applies.tracks (.inr ⟨undisputed, reflects⟩)

/-- A type is placed once its project, its package and itself are registered.  If one of them is
refused, that is one dispute, whatever was registered before. -/
theorem placeType_cases (project : String) (steady : f.Steady) (key : String) :
    (∃ h f', f.placeType key = (.ok h, f') ∧ f'.index.IsType h key ∧
        f.Applies project (Deed.placement project key) f') ∨
      ∃ e f', f.placeType key = (.error e, f') ∧ ∀ {i : Issue}, i.isDispute = true →
        f.Applies project (Deed.placement project key) (f'.record i) := by
  have packaged : Kind.package ≠ .project := by decide
  have typed : Kind.type ≠ .project := by decide
  unfold placeType
  rcases ensureProject_cases steady with ⟨f₁, ensured, first, owned⟩ | ⟨e, refused, conflict⟩
  · rw [ensured]
    cases package : Key.package? key with
    | none =>
        have placement : Deed.placement f.owningProject key =
            [.declare (.project f.owningProject)] ++
              [.declare (.type key (some f.owningProject))] := by
          rw [Deed.placement, package]
          rfl
        rcases declare_cases f.owningProject key typed first.steady owned with
          ⟨h, f₂, ok, second⟩ | ⟨e, refused, conflict⟩
        · refine .inl ⟨h, f₂, ok, declare_isType first.steady owned ok, .placement ?_⟩
          rw [placement]
          exact first.trans second
        · refine .inr ⟨e, f₁, refused, fun dispute => .placement ?_⟩
          rw [placement]
          exact first.trans (conflict dispute [])
    | some package' =>
        have placement : Deed.placement f.owningProject key =
            [.declare (.project f.owningProject)] ++
              ([.declare (.package package' f.owningProject)] ++
                [.declare (.type key (some package'))]) := by
          rw [Deed.placement, package]
          rfl
        rcases declare_cases f.owningProject package' packaged first.steady owned with
          ⟨q, f₂, ok, second⟩ | ⟨e, refused, conflict⟩
        · have owned' := Index.OwnerKnown.of_key? (declare_key? first.steady owned ok)
          simp only [ok]
          rcases declare_cases f.owningProject key typed second.steady owned' with
            ⟨h, f₃, ok', third⟩ | ⟨e, refused, conflict⟩
          · refine .inl ⟨h, f₃, ok', declare_isType second.steady owned' ok', .placement ?_⟩
            rw [placement]
            exact first.trans (second.trans third)
          · refine .inr ⟨e, f₂, refused, fun dispute => .placement ?_⟩
            rw [placement]
            exact first.trans (second.trans (conflict dispute []))
        · -- the type is not even tried
          refine .inr ⟨e, f₁, by simp only [refused], fun dispute => .placement ?_⟩
          rw [placement]
          exact first.trans (conflict dispute _)
  · refine .inr ⟨e, f, by simp only [refused], fun dispute => .placement ?_⟩
    unfold Deed.placement
    split <;> exact conflict dispute _

/-! ## The type of a class -/

/-- An outline knows the types of the findings that reflect it. -/
theorem Reflects.knowsType_iff {o : Outline} (reflects : f.Reflects project o.deeds) :
    o.knowsType key = true ↔ ∃ h, f.index.IsType h key := by
  rw [Outline.knowsType, List.any_eq_true]
  refine Iff.trans ?_ reflects.records.isType_iff
  simp only [Bool.and_eq_true, beq_iff_eq]
  constructor
  · rintro ⟨d, listed, facts⟩
    exact ⟨_, List.mem_map_of_mem listed, facts⟩
  · rintro ⟨_, listed, facts⟩
    obtain ⟨d, done, rfl⟩ := List.mem_map.mp listed
    exact ⟨d, done, facts⟩

/-- The findings after a type was found or placed, or its refusal was recorded. -/
structure Prepares (project key : String) (f f' : Findings) : Prop extends Extends f f' where
  steady : f'.Steady
  tracks : ∀ {o : Outline}, f.Tracks project o.deeds →
    f'.Tracks project (o.deeds ++ o.placing project key)

/-- Where the type is not known, placing it is what an outline does. -/
theorem Applies.prepares (applies : f.Applies project (Deed.placement project key) f')
    (unknown : ∀ h, ¬ f.index.IsType h key) : f.Prepares project key f' where
  toExtends := applies.toExtends
  steady := applies.steady
  tracks {o} tracks := by
    rcases tracks with ⟨disputed, conflict⟩ | ⟨undisputed, reflects⟩
    · exact .inl ⟨applies.disputed disputed, not_consistent_append _ _ conflict⟩
    · have unlisted : ¬ o.knowsType key = true := by
        rw [reflects.knowsType_iff]
        rintro ⟨h, type⟩
        exact unknown h type
      rw [Outline.placing, if_neg unlisted]
      exact applies.tracks (.inr ⟨undisputed, reflects⟩)

/-- A type that is known is not placed again. -/
theorem prepares_of_isType (steady : f.Steady) (type : f.index.IsType h key) :
    f.Prepares project key f where
  toExtends := .refl f
  steady := steady
  tracks {o} tracks := by
    rcases tracks with ⟨disputed, conflict⟩ | ⟨undisputed, reflects⟩
    · exact .inl ⟨disputed, not_consistent_append _ _ conflict⟩
    · have listed := reflects.knowsType_iff.mpr ⟨h, type⟩
      rw [Outline.placing, if_pos listed, List.append_nil]
      exact .inr ⟨undisputed, reflects⟩

theorem not_isType_of_find?_eq_none (steady : f.Steady) (missing : f.index.find? key = none)
    (h : Handle) : ¬ f.index.IsType h key := by
  rintro ⟨named, -⟩
  have listed := steady.index.handle?_iff.mpr named
  rw [steady.index.find?_eq_none_iff.mp missing] at listed
  cases listed

theorem not_isType_of_find?_eq_some (steady : f.Steady) {e : Element}
    (found : f.index.find? key = some e) (other : e.kind ≠ .type) (h : Handle) :
    ¬ f.index.IsType h key := by
  rintro ⟨named, is⟩
  obtain ⟨known, same⟩ := steady.index.find?_eq_some_iff.mp found
  have handle := steady.index.key?_injective named (by rw [Index.key?_of_get? known, same])
  rw [handle, Index.kind?_of_get? known, Option.some.injEq] at is
  exact other is

/-- The type of a class is prepared, or refused with one dispute. -/
def Resolves (project key : String) (f : Findings) : Except IndexError Handle × Findings → Prop
  | (.ok h, f') => f'.index.IsType h key ∧ f.Prepares project key f'
  | (.error e, f') => f.Prepares project key (f'.record (.ofIndexError .bytecode key e))

/-- Where its key is no type, a class is placed as the outline says, or its deeds are in conflict.
-/
theorem placeType_resolves (steady : f.Steady) (unknown : ∀ h, ¬ f.index.IsType h key) :
    f.Resolves project key (f.placeType key) := by
  rcases placeType_cases project steady key with
    ⟨h, f', ok, type, applies⟩ | ⟨e, f', refused, applies⟩
  · rw [ok]
    exact ⟨type, applies.prepares unknown⟩
  · rw [refused]
    exact (applies (Issue.isDispute_ofIndexError key e)).prepares unknown

/-- A key that is known as neither a type nor a placeholder contradicts the placement. -/
theorem record_prepares_of_misfit (steady : f.Steady) {existing : Kind}
    (named : f.index.key? h = some key) (is : f.index.kind? h = some existing)
    (misfit : ¬ existing.Fits .type) (unknown : ∀ h, ¬ f.index.IsType h key) {i : Issue}
    (dispute : i.isDispute = true) : f.Prepares project key (f.record i) := by
  refine Applies.prepares (.record steady dispute fun {before} reflects => ?_) unknown
  have listed : ∃ parent, .declare (.type key parent) ∈ Deed.placement project key := by
    unfold Deed.placement
    split
    · exact ⟨_, List.mem_cons_of_mem _ List.mem_cons_self⟩
    · exact ⟨_, List.mem_cons_of_mem _ (List.mem_cons_of_mem _ List.mem_cons_self)⟩
  obtain ⟨parent, listed⟩ := listed
  exact not_consistent_of_misfit listed (reflects.records.misfit named is misfit)

/-- The type of a class is found, placed or refused.  A placeholder of its key is promoted to a
type, and is placed in its package like a new one. -/
theorem resolveType_resolves (project : String) (steady : f.Steady) (key : String) :
    f.Resolves project key (f.resolveType key) := by
  unfold resolveType
  cases found : f.index.find? key with
  | none => exact placeType_resolves steady (not_isType_of_find?_eq_none steady found)
  | some e =>
      obtain ⟨known, same⟩ := steady.index.find?_eq_some_iff.mp found
      have named : f.index.key? e.handle = some key := by rw [Index.key?_of_get? known, same]
      have is := Index.kind?_of_get? known
      have unknown := not_isType_of_find?_eq_some steady found
      cases kind : e.kind with
      | type =>
          rw [kind] at is
          simp only [kind]
          exact ⟨⟨named, is⟩, prepares_of_isType steady ⟨named, is⟩⟩
      | external =>
          simp only [kind]
          exact placeType_resolves steady (unknown (by rw [kind]; decide))
      | _ =>
          simp only [kind]
          refine record_prepares_of_misfit steady named is ?_ (unknown (by rw [kind]; decide))
            (Issue.isDispute_ofIndexError key _)
          rw [kind, Kind.Fits]
          decide

/-! ## Opening -/

variable {c : ClassFacts}

/-- Operations on the members of a type, one after the other. -/
theorem Applies.foldl {α : Type} {deeds : α → List Deed} {op : Findings → α → Findings}
    (step : ∀ (f : Findings) (a : α), f.Steady → f.index.IsType h key →
      f.Applies project (deeds a) (op f a)) (l : List α) (steady : f.Steady)
    (type : f.index.IsType h key) : f.Applies project (l.flatMap deeds) (l.foldl op f) := by
  induction l generalizing f with
  | nil => exact .refl steady
  | cons a rest ih =>
      have first := step f a steady type
      rw [List.flatMap_cons, List.foldl_cons]
      exact first.trans (ih first.steady (type.grows first.grows))

/-- A member of a class. -/
theorem declareFact_applies_of_isType (steady : f.Steady) (type : f.index.IsType h key)
    {member : String} {kind : Kind} (other : kind ≠ .project) :
    f.Applies project [.declare ⟨kind, member, some key⟩]
      (f.declareFact .bytecode member kind (some key)).2 :=
  declareFact_applies steady (.of_key? type.1) other

theorem recordSuperclass_applies (steady : f.Steady) (superclass : Option Handle) :
    f.Applies project [] (f.recordSuperclass h superclass) := by
  have steady' : (f.recordSuperclass h superclass).Steady :=
    ⟨steady.index, steady.graph, steady.founded⟩
  refine .of_reflects steady' (.quiet (.refl _) (fun _ => rfl) rfl rfl) rfl fun reflects => ?_
  rw [List.append_nil]
  exact ⟨reflects.records, reflects.edges, reflects.project⟩

/-- The findings when a class is entered: it is counted, and its type is a vertex. -/
def entered (f : Findings) (type : Handle) : Findings :=
  { f.withModel (f.toModel.addVertex type).2 with
    report := { f.report with classesScanned := f.report.classesScanned + 1 } }

/-- A class is opened in four steps: its type is entered, and superclass, interfaces and fields
follow. -/
theorem openClass_eq (f : Findings) (c : ClassFacts) (type : Handle) :
    f.openClass c type = (((f.entered type).addSuperclass c type).addInterfaces c).addFields c :=
  rfl

/-- What holds of a class that is counted, and is kept by its dependencies, its superclass and its
fields, holds once it is opened. -/
theorem openClass_induction {motive : Findings → Prop} {type : Handle}
    (entered : motive (f.entered type))
    (depend : ∀ f key kind, motive f → motive (f.depend c.key key kind).2)
    (inherit : ∀ f above, motive f → motive (f.recordSuperclass type above))
    (field : ∀ f, ∀ field ∈ c.fields, motive f →
      motive (f.declareFact .bytecode (c.fieldKey field) .field (some c.key)).2) :
    motive (f.openClass c type) := by
  have superclass : motive ((f.entered type).addSuperclass c type) := by
    unfold addSuperclass
    cases c.superclass with
    | none => exact inherit _ _ entered
    | some superclass => exact inherit _ _ (depend _ superclass .extension entered)
  have interfaces : motive (((f.entered type).addSuperclass c type).addInterfaces c) :=
    List.foldlRecOn c.interfaces _ superclass fun f held key _ => depend f key .implementation held
  rw [openClass_eq]
  exact List.foldlRecOn c.fields _ interfaces fun f held declared listed =>
    field f declared listed held

theorem entered_applies (steady : f.Steady) (type : f.index.IsType h key) :
    f.Applies project [] (f.entered h) :=
  applies_of_addVertex steady type.isTypeLevel rfl rfl rfl rfl

/-- The superclass is one deed, and none if the class has no superclass. -/
theorem addSuperclass_applies (steady : f.Steady) (type : f.index.IsType h c.key) :
    f.Applies project (c.superclass.toList.flatMap fun t => Deed.depend ⟨c.key, t, .extension⟩)
      (f.addSuperclass c h) := by
  unfold addSuperclass
  cases c.superclass with
  | none => exact recordSuperclass_applies steady none
  | some t =>
      have first : f.Applies project (Deed.depend ⟨c.key, t, .extension⟩) _ :=
        depend_applies steady type t .extension
      rw [Option.toList_some, List.flatMap_singleton, ← List.append_nil (Deed.depend _)]
      exact first.trans (recordSuperclass_applies first.steady _)

theorem addInterfaces_applies (steady : f.Steady) (type : f.index.IsType h c.key) :
    f.Applies project (c.interfaces.flatMap fun t => Deed.depend ⟨c.key, t, .implementation⟩)
      (f.addInterfaces c) :=
  .foldl (fun _ t steady type => depend_applies steady type t .implementation)
    c.interfaces steady type

theorem addFields_applies (steady : f.Steady) (type : f.index.IsType h c.key) :
    f.Applies project
      (c.fields.flatMap fun field => [.declare (.field c.key field.name)]) (f.addFields c) :=
  .foldl (fun _ _ steady type => declareFact_applies_of_isType steady type (by decide))
    c.fields steady type

/-- Opening a class records its supertypes and its fields.  These are its deeds before any method is
looked at. -/
theorem openClass_applies (steady : f.Steady) (type : f.index.IsType h c.key) :
    f.Applies project c.opening (f.openClass c h) := by
  have first : f.Applies project [] (f.entered h) := entered_applies steady type
  have second := first.trans (addSuperclass_applies first.steady (type.grows first.grows))
  have third := second.trans (addInterfaces_applies second.steady (type.grows second.grows))
  have fourth := third.trans (addFields_applies third.steady (type.grows third.grows))
  have listed : c.opening = [] ++
      (c.superclass.toList.flatMap fun t => Deed.depend ⟨c.key, t, .extension⟩) ++
      (c.interfaces.flatMap fun t => Deed.depend ⟨c.key, t, .implementation⟩) ++
      (c.fields.flatMap fun field => [.declare (.field c.key field.name)]) := by
    rw [ClassFacts.opening, ClassFacts.supertypes, List.flatMap_append, List.flatMap_map,
      List.flatMap_map, List.nil_append, List.map_eq_flatMap]
  rw [listed, openClass_eq]
  exact fourth

theorem superclasses_foldl {α : Type} {op : Findings → α → Findings}
    (kept : ∀ f a, (op f a).superclasses = f.superclasses) (l : List α) (f : Findings) :
    (l.foldl op f).superclasses = f.superclasses := by
  induction l generalizing f with
  | nil => rfl
  | cons a rest ih => rw [List.foldl_cons, ih, kept]

/-- A superclass that is accepted is known, and recorded by its handle.  A class that extends itself
has its own handle as the recorded one. -/
theorem superclasses_addSuperclass (steady : f.Steady) (type : f.index.IsType h c.key)
    (undisputed : ¬ (f.addSuperclass c h).Disputed) :
    (f.addSuperclass c h).superclasses =
        f.superclasses.insert h (c.superclass.bind (f.addSuperclass c h).index.handle?) ∧
      ∀ t, c.superclass = some t → ∃ q, (f.addSuperclass c h).index.key? q = some t := by
  unfold addSuperclass at undisputed ⊢
  cases superclass : c.superclass with
  | none => exact ⟨rfl, fun t impossible => by cases impossible⟩
  | some t =>
      simp only [superclass] at undisputed ⊢
      cases accepted : (f.depend c.key t .extension).1 with
      | false => exact absurd (depend_eq_false accepted) undisputed
      | true =>
          refine ⟨?_, ?_⟩
          · rw [recordSuperclass, superclasses_depend, if_pos rfl]
            rfl
          · rintro t' ⟨⟩
            exact depend_eq_true steady type accepted

/-- What a class that is opened without a dispute has recorded as its superclass: the handle that
the key of the superclass leads to, also after interfaces and fields were added. -/
theorem superclasses_openClass (steady : f.Steady) (type : f.index.IsType h c.key)
    (undisputed : ¬ (f.openClass c h).Disputed) :
    (f.openClass c h).superclasses =
        f.superclasses.insert h (c.superclass.bind (f.openClass c h).index.handle?) ∧
      ∀ t, c.superclass = some t → ∃ q, (f.openClass c h).index.key? q = some t := by
  rw [openClass_eq] at undisputed ⊢
  have first : f.Applies "" [] (f.entered h) := entered_applies steady type
  have type₁ := type.grows first.grows
  have second : (f.entered h).Applies "" _ ((f.entered h).addSuperclass c h) :=
    addSuperclass_applies first.steady type₁
  have type₂ := type₁.grows second.grows
  have third : ((f.entered h).addSuperclass c h).Applies "" _ _ :=
    addInterfaces_applies second.steady type₂
  have rest := third.trans (addFields_applies third.steady (type₂.grows third.grows))
  obtain ⟨recorded, known⟩ := superclasses_addSuperclass first.steady type₁
    fun disputed => undisputed (rest.disputed disputed)
  constructor
  · have kept : ((((f.entered h).addSuperclass c h).addInterfaces c).addFields c).superclasses =
        ((f.entered h).addSuperclass c h).superclasses := by
      unfold addFields addInterfaces
      rw [superclasses_foldl fun f field => superclasses_declareFact f _ _ _ _,
        superclasses_foldl fun f t => superclasses_depend f _ _ _]
    rw [kept, recorded]
    cases superclass : c.superclass with
    | none => rfl
    | some t =>
        obtain ⟨q, named⟩ := known t superclass
        have before := second.steady.index.handle?_iff.mpr named
        -- recorded early, and the key still leads to the same handle
        have after := rest.grows.handle_kept second.steady.index.toCoherent
          rest.steady.index.toCoherent before
        rw [Option.bind_some, Option.bind_some, before, after]
        rfl
  · intro t superclass
    obtain ⟨q, named⟩ := known t superclass
    exact ⟨q, rest.grows.key_kept named⟩

/-- A reference counts as a dependency on the owner of the member. -/
theorem addReference_eq (f : Findings) (c : ClassFacts) (r : Reference) :
    f.addReference c r = (f.depend c.key r.owner r.edgeKind).2 := by
  cases r <;> rfl

end Findings

end CodeMetrics
