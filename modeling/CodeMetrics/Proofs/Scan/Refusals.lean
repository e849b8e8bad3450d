import CodeMetrics.Proofs.Scan.Lineage

/-!
# Refused classes stay refused

A class is refused because its key, its package or the project is known as something else.  That does
not change in the bytecode scan: what is known keeps its kind, and nothing but a class of that key
could register its type.  So whether a class was refused can be read off the index at the end of a
run: its key is not the key of a type.

`Findings.ExtendsWithin` says which kinds come up, and every operation of the bytecode scan has its
budget.  `Findings.Bars` says that a class is refused from now on.
-/

namespace CodeMetrics

namespace Findings

open Index

variable {f f' f'' : Findings} {ix : Index} {key : String} {budget : String → Kind → Prop}

/-- The model evolves, and the kinds that come up are within a budget. -/
structure ExtendsWithin (budget : String → Kind → Prop) (f f' : Findings) : Prop where
  evolves : f.toModel.Evolves f'.toModel
  config : f'.config = f.config
  within : ∀ {key : String} {kind : Kind}, f'.index.Has key kind →
    f.index.Has key kind ∨ budget key kind

namespace ExtendsWithin

/-- The index stays as it is. -/
theorem of_index (evolves : f.toModel.Evolves f'.toModel) (config : f'.config = f.config)
    (index : f'.index = f.index) : f.ExtendsWithin budget f' :=
  ⟨evolves, config, fun has => .inl (index ▸ has)⟩

theorem refl (f : Findings) : f.ExtendsWithin budget f := .of_index (.refl _) rfl rfl

/-- A larger budget allows the same extension. -/
theorem mono {budget' : String → Kind → Prop} (extended : f.ExtendsWithin budget f')
    (more : ∀ key kind, budget key kind → budget' key kind) : f.ExtendsWithin budget' f' :=
  ⟨extended.evolves, extended.config, fun has => (extended.within has).imp_right (more _ _)⟩

/-- Two extensions within one budget stay within it together. -/
theorem trans (first : f.ExtendsWithin budget f') (second : f'.ExtendsWithin budget f'') :
    f.ExtendsWithin budget f'' := by
  refine ⟨first.evolves.trans second.evolves, second.config.trans first.config, fun has => ?_⟩
  rcases second.within has with before | new
  · exact first.within before
  · exact .inr new

/-- An issue needs no budget, since it makes no element. -/
theorem record (f : Findings) (i : Issue) : f.ExtendsWithin budget (f.record i) :=
  .of_index (.of_alike ⟨rfl, rfl⟩) rfl rfl

end ExtendsWithin

/-- What the members of a class may bring up. -/
def memberBudget (_ : String) (kind : Kind) : Prop :=
  kind = .external ∨ kind = .field ∨ kind = .method

/-- A registration makes at most the element it is for and a placeholder for its owner. -/
theorem declare_within (sound : f.toModel.Sound) (key : String) (kind : Kind)
    (parent : Option String) :
    f.ExtendsWithin (fun k K => k = key ∧ K = kind ∨ K = .external)
      (f.declare key kind parent).2 := by
  refine ⟨f.declare_evolves key kind parent, (f.declare_tacit key kind parent).config, ?_⟩
  rcases declared : f.declare key kind parent with ⟨e | h, f'⟩
  · obtain ⟨-, rfl⟩ := declare_eq_error declared
    exact .inl
  · exact (register_registers sound.index.toCoherent (declare_eq_ok declared).1).within

/-- Registering a member makes at most this member and a placeholder.  It never makes a type, a
package or a project. -/
theorem declareFact_within (sound : f.toModel.Sound) (phase : Phase) (key : String) {kind : Kind}
    (member : kind = .field ∨ kind = .method) (parent : Option String) :
    f.ExtendsWithin memberBudget (f.declareFact phase key kind parent).2 := by
  have extended : f.ExtendsWithin memberBudget (f.declare key kind parent).2 :=
    (declare_within sound key kind parent).mono fun k K new => by
      rcases new with ⟨-, rfl⟩ | external
      · exact .inr member
      · exact .inl external
  unfold declareFact
  rcases declared : f.declare key kind parent with ⟨e | h, f'⟩
  · rw [declared] at extended
    exact extended.trans (.record f' _)
  · rw [declared] at extended
    exact extended

/-- A dependency makes placeholders at most, for those of its ends that are unknown.  A refused
dependency may have made one for its source. -/
theorem depend_within (sound : f.toModel.Sound) (source target : String) (kind : EdgeKind) :
    f.ExtendsWithin memberBudget (f.depend source target kind).2 := by
  refine ⟨f.depend_evolves source target kind, (depend_enriches sound source target kind).config,
    fun {k K} has => ?_⟩
  have placed {m m' : Model} {key : String} {h : Handle} (resolved : m.Resolved key h m')
      (has : m'.index.Has k K) : m.index.Has k K ∨ memberBudget k K := by
    rcases (Registers.of_placed resolved.placed).within has with before | ⟨-, external⟩ | external
    · exact .inl before
    · exact .inr (.inl external)
    · exact .inr (.inl external)
  have links := Model.addEdge_links sound.index source target kind
  rw [depend_eq] at has
  generalize f.toModel.addEdge source target kind = result at links has
  cases links with
  | self _ => exact .inl has
  | sourceRefused _ _ => exact .inl has
  | targetRefused _ first _ => exact placed first has
  | counted _ first second _ =>
      rcases placed second has with before | new
      · exact placed first before
      · exact .inr new

/-- Opening a class makes members and placeholders only.  Its type has to be there before. -/
theorem openClass_within (sound : f.toModel.Sound) {c : ClassFacts} {type : Handle}
    (isType : f.index.IsType type c.key) : f.ExtendsWithin memberBudget (f.openClass c type) := by
  refine openClass_induction (motive := f.ExtendsWithin memberBudget)
    (.of_index (entered_evolves isType) rfl rfl) ?_ ?_ ?_
  · intro f' key kind held
    exact held.trans (depend_within (held.evolves.sound sound) c.key key kind)
  · intro f' above held
    exact held.trans (.of_index (.of_alike ⟨rfl, rfl⟩) rfl rfl)
  · intro f' field _ held
    exact held.trans (declareFact_within (held.evolves.sound sound) .bytecode (c.fieldKey field)
      (.inl rfl) (some c.key))

/-- A reference makes placeholders at most. -/
theorem addReference_within (sound : f.toModel.Sound) (c : ClassFacts) (r : Reference) :
    f.ExtendsWithin memberBudget (f.addReference c r) := by
  rw [addReference_eq]
  exact depend_within sound c.key r.owner _

/-- Effects bring up no element: measures and superclasses are recorded for handles, and what is
said goes to the journal. -/
theorem effects_within (f : Findings) (effects : List Effect) :
    f.ExtendsWithin (fun _ _ => False) (effects.foldl Effect.apply f) := by
  induction effects generalizing f with
  | nil => exact .refl f
  | cons effect rest ih =>
      refine ExtendsWithin.trans ⟨f.effect_evolves effect, ?_, fun {key kind} has => .inl ?_⟩
        (ih (effect.apply f))
      · cases effect with
        | attach h name value =>
            rcases f.attach_cases h name value with ⟨-, attached⟩ | unknown
            · rw [attached]
            · rw [unknown]
        | superclass h above => rfl
        | say level message => rfl
      · cases effect with
        | attach h name value =>
            rcases f.attach_cases h name value with ⟨-, attached⟩ | unknown
            · rw [attached] at has
              obtain ⟨g, named, is⟩ := has
              exact ⟨g, by rw [← named]; exact (key?_measured ..).symm,
                by rw [← is]; exact (kind?_measured ..).symm⟩
            · rw [unknown] at has
              exact has
        | superclass h above => exact has
        | say level message => exact has

/-! ## Packages and the project -/

/-- The key of the owner of a new type, with the project and the package that it needs. -/
def house (f : Findings) (key : String) : Except IndexError String × Findings :=
  match f.ensureProject with
  | (.error e, f) => (.error e, f)
  | (.ok project, f) =>
    match Key.package? key with
    | none => (.ok project, f)
    | some package =>
      match f.declare package .package (some project) with
      | (.error e, f) => (.error e, f)
      | (.ok _, f) => (.ok package, f)

/-- A type is placed in two steps: its package and the project are provided, and then it is
registered there. -/
theorem placeType_eq (f : Findings) (key : String) :
    f.placeType key =
      match f.house key with
      | (.error e, f) => (.error e, f)
      | (.ok owner, f) => f.declare key .type (some owner) := by
  unfold placeType house
  rcases f.ensureProject with ⟨e | project, f₁⟩
  · rfl
  · cases Key.package? key with
    | none => rfl
    | some package =>
        dsimp only
        rcases f₁.declare package .package (some project) with ⟨e | h, f₂⟩ <;> rfl

/-- There is no project, and its key is known as something else. -/
def LacksProject (f : Findings) : Prop :=
  (∀ key, ¬ f.index.Has key .project) ∧ f.index.Refuses f.config.projectKey .project

/-- The package of the key is known as something else. -/
def LacksPackage (f : Findings) (key : String) : Prop :=
  ∃ package, Key.package? key = some package ∧ f.index.Refuses package .package

/-- No project is found exactly if no element is one. -/
theorem project?_eq_none_iff (sound : f.toModel.Sound) :
    f.index.project? = none ↔ ∀ key, ¬ f.index.Has key .project := by
  constructor
  · rintro missing key ⟨h, -, is⟩
    have listed := sound.index.mem_handlesOf.mpr is
    rw [handlesOf_project_eq_empty sound.index.toCoherent missing] at listed
    cases listed
  · intro lacking
    cases found : f.index.project? with
    | none => rfl
    | some e => exact absurd ⟨e.handle, project?_named (steady_of_sound sound) found⟩ (lacking e.key)

/-- The project is there or can be registered, unless it is lacking: there is none, and its key is
taken by something else. -/
theorem ensureProject_cases_within (sound : f.toModel.Sound) :
    (f.LacksProject ∧ ∃ e, f.ensureProject = (.error e, f)) ∨
      ¬ f.LacksProject ∧ ∃ project f', f.ensureProject = (.ok project, f') ∧
        f.ExtendsWithin (fun _ K => K = .project ∨ K = .external) f' := by
  unfold ensureProject
  cases found : f.index.project? with
  | some e =>
      refine .inr ⟨fun lacks => ?_, e.key, f, rfl, .refl f⟩
      rw [(project?_eq_none_iff sound).mpr lacks.1] at found
      cases found
  | none =>
      have within := declare_within sound f.config.projectKey .project none
      rcases declared : f.declare f.config.projectKey .project none with ⟨e | h, f'⟩
      · obtain ⟨refused, rfl⟩ := declare_eq_error declared
        refine .inl ⟨⟨(project?_eq_none_iff sound).mp found, ?_⟩, e, rfl⟩
        exact (refuses_iff sound.index.toCoherent _).mpr ⟨e, refused⟩
      · rw [declared] at within
        refine .inr ⟨fun lacks => ?_, f'.config.projectKey, f', rfl, within.mono fun k K new => ?_⟩
        · obtain ⟨e, refused⟩ := (refuses_iff sound.index.toCoherent _).mp lacks.2
          rw [(declare_eq_ok declared).1] at refused
          cases refused
        · exact new.imp_left And.right

/-- A type is housed unless the project or its package is lacking.  The project is provided first,
so a package may be lacking although the project was just made. -/
theorem house_cases (sound : f.toModel.Sound) (key : String) :
    (∃ e f', f.house key = (.error e, f') ∧ (f'.LacksProject ∧ f' = f ∨
        ¬ f.LacksProject ∧ f'.LacksPackage key) ∧
        f.ExtendsWithin (fun _ K => K ≠ .type) f') ∨
      ∃ owner f', f.house key = (.ok owner, f') ∧ ¬ f.LacksProject ∧ ¬ f'.LacksPackage key ∧
        f.ExtendsWithin (fun _ K => K ≠ .type) f' := by
  unfold house
  rcases ensureProject_cases_within sound with
    ⟨lacks, e, refused⟩ | ⟨there, project, f₁, ensured, within⟩
  · rw [refused]
    exact .inl ⟨e, f, rfl, .inl ⟨lacks, rfl⟩, .refl f⟩
  · rw [ensured]
    have within₁ : f.ExtendsWithin (fun _ K => K ≠ .type) f₁ := within.mono fun k K new => by
      rcases new with rfl | rfl <;> decide
    cases packaged : Key.package? key with
    | none =>
        refine .inr ⟨project, f₁, rfl, there, ?_, within₁⟩
        rintro ⟨package, is, -⟩
        rw [packaged] at is
        cases is
    | some package =>
        have sound₁ := within.evolves.sound sound
        have within₂ := declare_within sound₁ package .package (some project)
        dsimp only
        rcases declared : f₁.declare package .package (some project) with ⟨e | h, f₂⟩
        · obtain ⟨refused, rfl⟩ := declare_eq_error declared
          refine .inl ⟨e, f₂, rfl, .inr ⟨there, package, packaged, ?_⟩, within₁⟩
          exact (refuses_iff sound₁.index.toCoherent _).mpr ⟨e, refused⟩
        · rw [declared] at within₂
          have sound₂ := within₂.evolves.sound sound₁
          refine .inr ⟨package, f₂, rfl, there, ?_, within₁.trans (within₂.mono fun k K new => ?_)⟩
          · rintro ⟨package', is, refuses⟩
            cases packaged.symm.trans is
            have registered := register_registers sound₁.index.toCoherent (declare_eq_ok declared).1
            refine refuses.not_has sound₂.index.toCoherent ⟨h, registered.named, ?_⟩
            exact registered.is.resolve_right fun impossible => by cases impossible.2
          · rcases new with ⟨-, rfl⟩ | rfl <;> decide

/-! ## Refused classes -/

/-- A class of this key is refused, now and later. -/
structure Bars (f : Findings) (key : String) : Prop where
  untyped : ¬ f.index.Has key .type
  reason : f.index.Refuses key .type ∨ f.LacksPackage key ∨ f.LacksProject

/-- A package that cannot be provided can never be: what has its key keeps a kind that does not fit.
-/
theorem LacksPackage.grows (lacks : f.LacksPackage key) (grows : f.index.Grows f'.index) :
    f'.LacksPackage key := by
  obtain ⟨package, packaged, refuses⟩ := lacks
  exact ⟨package, packaged, refuses.grows grows⟩

namespace Bars

/-- What brings up neither the type nor a project leaves the class refused. -/
theorem extended (bars : f.Bars key) (sound : f.toModel.Sound)
    (extended : f.ExtendsWithin budget f') (untyped : ¬ budget key .type)
    (unowned : ∀ k, ¬ budget k .project) : f'.Bars key := by
  have grows := extended.evolves.grows sound
  refine ⟨fun has => (extended.within has).elim bars.untyped untyped, ?_⟩
  rcases bars.reason with refuses | lacks | ⟨lacks, refuses⟩
  · exact .inl (refuses.grows grows)
  · exact .inr (.inl (lacks.grows grows))
  · refine .inr (.inr ⟨fun k has => ?_, ?_⟩)
    · exact (extended.within has).elim (lacks k) (unowned k)
    · rw [extended.config]
      exact refuses.grows grows

/-- Housing a type does not make room for a class that is refused.  A project or a package may come
up, but no type, and a project comes up only where none was lacking. -/
theorem house (bars : f.Bars key) (sound : f.toModel.Sound) (other : String) :
    (f.house other).2.Bars key := by
  have kept {f' : Findings} (within : f.ExtendsWithin (fun _ K => K ≠ .type) f')
      (project : f.LacksProject → f'.LacksProject) : f'.Bars key := by
    have grows := within.evolves.grows sound
    refine ⟨fun has => (within.within has).elim bars.untyped fun new => new rfl, ?_⟩
    rcases bars.reason with refuses | lacks | lacks
    · exact .inl (refuses.grows grows)
    · exact .inr (.inl (lacks.grows grows))
    · exact .inr (.inr (project lacks))
  rcases house_cases sound other with
    ⟨e, f₁, refused, why, within⟩ | ⟨owner, f₁, housed, there, -, within⟩
  · rw [refused]
    refine kept within fun lacks => ?_
    rcases why with ⟨lacks, -⟩ | ⟨there, -⟩
    · exact lacks
    · exact absurd lacks there
  · rw [housed]
    exact kept within fun lacks => absurd lacks there

/-- Placing another type does not make room for a class that is refused.  Only a class of the same
key could, and that one is refused for the same reason. -/
theorem placeType (bars : f.Bars key) (sound : f.toModel.Sound) (other : String) :
    (f.placeType other).2.Bars key := by
  have bars₁ := bars.house sound other
  rw [placeType_eq]
  rcases house_cases sound other with
    ⟨e, f₁, refused, -, -⟩ | ⟨owner, f₁, housed, there, packaged, within⟩
  · rw [refused] at bars₁ ⊢
    exact bars₁
  · rw [housed] at bars₁ ⊢
    have sound₁ := within.evolves.sound sound
    by_cases same : other = key
    · -- housed, but still refused: only its own key can be the reason
      subst same
      have grows := within.evolves.grows sound
      have refuses : f₁.index.Refuses other .type := by
        rcases bars.reason with refuses | lacks | lacks
        · exact refuses.grows grows
        · exact absurd (lacks.grows grows) packaged
        · exact absurd lacks there
      obtain ⟨e, refused⟩ :=
        (refuses_iff sound₁.index.toCoherent (some owner)).mp refuses
      dsimp only
      rcases declared : f₁.declare other .type (some owner) with ⟨e' | h, f₂⟩
      · obtain ⟨-, rfl⟩ := declare_eq_error declared
        exact bars₁
      · rw [(declare_eq_ok declared).1] at refused
        cases refused
    · refine bars₁.extended sound₁ (declare_within sound₁ other .type (some owner)) ?_ ?_
      · rintro (⟨is, -⟩ | impossible)
        · exact same is.symm
        · cases impossible
      · rintro k (⟨-, impossible⟩ | impossible)
        · cases impossible
        · cases impossible

/-- A class that is refused stays refused while others are resolved, and so does itself. -/
theorem resolveType (bars : f.Bars key) (sound : f.toModel.Sound) (other : String) :
    (f.resolveType other).2.Bars key := by
  unfold Findings.resolveType
  split
  · exact bars.placeType sound other
  · split
    · exact bars
    · exact bars.placeType sound other
    · exact bars

end Bars

/-- A class that is refused is refused for good.  Each of the three reasons is a key that is known
as something else, and no key ever changes its kind in a way that would help. -/
theorem bars_of_resolveType (sound : f.toModel.Sound) {e : IndexError}
    (refused : f.resolveType key = (.error e, f')) : f'.Bars key := by
  -- a class is placed if its key is unknown or that of a placeholder
  have placing (untyped : ¬ f.index.Has key .type) (refused : f.placeType key = (.error e, f')) :
      f'.Bars key := by
    rw [placeType_eq] at refused
    have untyped₁ {f₁ : Findings} (within : f.ExtendsWithin (fun _ K => K ≠ .type) f₁) :
        ¬ f₁.index.Has key .type := fun has =>
      (within.within has).elim untyped fun new => new rfl
    rcases house_cases sound key with
      ⟨e, f₁, unhoused, why, within⟩ | ⟨owner, f₁, housed, -, -, within⟩
    · rw [unhoused] at refused
      cases refused
      refine ⟨untyped₁ within, ?_⟩
      rcases why with ⟨lacks, -⟩ | ⟨-, lacks⟩
      · exact .inr (.inr lacks)
      · exact .inr (.inl lacks)
    · rw [housed] at refused
      obtain ⟨refused, rfl⟩ := declare_eq_error refused
      refine ⟨untyped₁ within, .inl ?_⟩
      exact (refuses_iff (within.evolves.sound sound).index.toCoherent _).mpr ⟨e, refused⟩
  unfold resolveType at refused
  cases found : f.index.find? key with
  | none =>
      rw [found] at refused
      refine placing ?_ refused
      rintro ⟨h, type⟩
      exact not_isType_of_find?_eq_none (steady_of_sound sound) found h type
  | some element =>
      have has : f.index.Has key element.kind :=
        has_of_find? sound.index.toCoherent (by rw [found]; rfl)
      rw [found] at refused
      dsimp only at refused
      split at refused
      · cases refused
      · next external =>
          refine placing (fun typed => ?_) refused
          cases (has.unique typed sound.index.toCoherent).symm.trans external
      · next typed external =>
          cases refused
          -- its own key is taken, by something that is no type and no placeholder
          have misfit : ¬ element.kind.Fits .type := by
            rintro (is | ⟨level, -⟩)
            · exact typed is
            · exact (Kind.isTypeLevel_iff.mp level).elim typed external
          have refuses : f.index.Refuses key .type := ⟨element.kind, has, misfit⟩
          exact ⟨refuses.not_has sound.index.toCoherent, .inl refuses⟩

/-! ## From one moment to a later one -/

/-- The index grows, and whatever class is refused stays refused. -/
structure Advances (f f' : Findings) : Prop where
  grows : f.index.Grows f'.index
  barred : ∀ {key : String}, f.Bars key → f'.Bars key

namespace Advances

/-- At the same moment nothing has changed. -/
theorem refl (f : Findings) : f.Advances f := ⟨.refl _, id⟩

/-- What is refused at one moment stays refused at all later ones. -/
theorem trans (first : f.Advances f') (second : f'.Advances f'') : f.Advances f'' :=
  ⟨first.grows.trans second.grows, fun bars => second.barred (first.barred bars)⟩

/-- Members and placeholders make no class acceptable that was refused before. -/
theorem of_within (sound : f.toModel.Sound) (extended : f.ExtendsWithin memberBudget f') :
    f.Advances f' := by
  refine ⟨extended.evolves.grows sound, fun bars => bars.extended sound extended ?_ ?_⟩
  · rintro (impossible | impossible | impossible) <;> cases impossible
  · rintro - (impossible | impossible | impossible) <;> cases impossible

/-- The index stays as it is. -/
theorem of_index (index : f'.index = f.index) (config : f'.config = f.config) : f.Advances f' := by
  refine ⟨index ▸ .refl _, fun {key} bars => ?_⟩
  have reason := bars.reason
  unfold LacksPackage LacksProject at reason
  refine ⟨index ▸ bars.untyped, ?_⟩
  unfold LacksPackage LacksProject
  rw [index, config]
  exact reason

/-- Nothing but measures changes. -/
theorem of_remeasures (sound : f.toModel.Sound) (remeasures : f.Remeasures f') : f.Advances f' := by
  refine .of_within sound ⟨remeasures.evolves, remeasures.config, ?_⟩
  rintro key kind ⟨h, named, is⟩
  rw [remeasures.keys] at named
  rw [remeasures.kinds] at is
  exact .inl ⟨h, named, is⟩

/-- Finding the type of one class makes no other class acceptable that was refused before. -/
theorem resolveType (sound : f.toModel.Sound) (key : String) :
    f.Advances (f.resolveType key).2 :=
  ⟨(f.resolveType_tacit key).evolves.grows sound, fun bars => bars.resolveType sound key⟩

end Advances

/-- An index that may come of the findings: it grows from theirs, and no class that is refused has
its type there. -/
structure Foresees (f : Findings) (ix : Index) : Prop where
  grows : f.index.Grows ix
  coherent : ix.Coherent
  refused : ∀ {key : String}, f.Bars key → ¬ ix.Has key .type

/-- What is foreseen at a later moment was foreseen at an earlier one. -/
theorem Foresees.advances (foresees : f'.Foresees ix) (advances : f.Advances f') : f.Foresees ix where
  grows := advances.grows.trans foresees.grows
  coherent := foresees.coherent
  refused bars := foresees.refused (advances.barred bars)

/-- The findings foresee their own index. -/
theorem Foresees.now (sound : f.toModel.Sound) : f.Foresees f.index :=
  ⟨.refl _, sound.index.toCoherent, Bars.untyped⟩

end Findings

end CodeMetrics
