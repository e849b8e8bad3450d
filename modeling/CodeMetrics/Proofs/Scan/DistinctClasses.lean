import CodeMetrics.Proofs.Index.Layers
import CodeMetrics.Proofs.Key
import CodeMetrics.Proofs.Scan.Outline

/-!
# Classes with distinct keys

A class whose key holds no `#` is `Plain`: the keys of its members then tell which class they belong
to.  If the classes of a scan are plain and their keys are distinct, no class gets in the way of
another.  Every class is accepted, is placed by itself and has all its own sites to itself, so that
its deeds are the same wherever it stands in the order (`Outline.scan_eq`).

The declarations in these deeds are layered: projects below packages, packages below types, types
below members.
-/

namespace CodeMetrics

/-! ## Plain keys -/

namespace ClassFacts

/-- The key of a class holds no `#`. -/
def Plain (c : ClassFacts) : Prop := Key.memberMark ∉ c.key.toList

instance : DecidablePred Plain :=
  fun c => inferInstanceAs (Decidable (Key.memberMark ∉ c.key.toList))

variable {c : ClassFacts} {u : Use}

theorem mem_uses_iff :
    u ∈ c.uses ↔ ∃ m ∈ c.methods, ∃ r ∈ m.body, ⟨c.key, c.methodKey m, r⟩ = u := by
  simp only [uses, usesOf, List.mem_flatMap, List.mem_map]

theorem owner?_of_mem_uses (plain : c.Plain) (listed : u ∈ c.uses) :
    Key.owner? u.method = some c.key := by
  obtain ⟨m, -, r, -, rfl⟩ := mem_uses_iff.mp listed
  exact Key.owner?_member plain m.signature

/-- What was seen in other classes does not matter. -/
theorem mentions_of_elsewhere (plain : c.Plain) {seen : List (String × UInt32)}
    (elsewhere : ∀ place ∈ seen, ∃ c' : ClassFacts, c'.Plain ∧ c'.key ≠ c.key ∧
      place ∈ c'.uses.map Use.place) : c.mentions seen = c.mentions [] := by
  refine c.mentionsIn_congr fun u listed => iff_of_false (fun known => ?_) List.not_mem_nil
  -- one place in two classes would be one method of both, and its key names its class
  obtain ⟨c', plain', other, member⟩ := elsewhere u.place known
  obtain ⟨u', listed', same⟩ := List.mem_map.mp member
  have method : u'.method = u.method := congrArg Prod.fst same
  have owner := owner?_of_mem_uses plain' listed'
  rw [method, owner?_of_mem_uses plain listed, Option.some.injEq] at owner
  exact other owner.symm

end ClassFacts

/-! ## The deeds of one class -/

theorem Deed.mem_placement_iff {project key : String} {d : Deed} :
    d ∈ placement project key ↔
      d = .declare (.project project) ∨
        (∃ package, Key.package? key = some package ∧ d = .declare (.package package project)) ∨
        d = .declare (.type key (some ((Key.package? key).getD project))) := by
  unfold placement
  cases Key.package? key <;> simp

namespace ClassFacts

variable {c : ClassFacts} {project : String}

/-- All deeds of a class that is placed and scanned on its own. -/
def allDeeds (project : String) (c : ClassFacts) : List Deed :=
  Deed.placement project c.key ++ c.deeds []

/-- What a class declares. -/
inductive States (project : String) (c : ClassFacts) : Declaration → Prop where
  | project : States project c (.project project)
  | package {key : String} (packaged : Key.package? c.key = some key) :
      States project c (.package key project)
  | type : States project c (.type c.key (some ((Key.package? c.key).getD project)))
  | field {f : Field} (listed : f ∈ c.fields) : States project c (.field c.key f.name)
  | method {m : Method} (listed : m ∈ c.methods) : States project c (.method c.key m.signature)
  | target (key : String) : States project c ⟨.external, key, none⟩

theorem states_of_mem_depend {d : Dependency} {deed : Deed} (listed : deed ∈ Deed.depend d) :
    c.States project deed.declaration := by
  unfold Deed.depend at listed
  split at listed
  · cases listed
  · rw [List.mem_singleton.mp listed]
    exact .target d.target

/-- What the mentions of some methods of a class do is stated by the class. -/
theorem states_of_mem_mention {methods : List Method} (declared : methods ⊆ c.methods)
    {seen : List (String × UInt32)} {m : Mention} (listed : m ∈ c.mentionsIn seen methods)
    {deed : Deed} (done : deed ∈ m.deeds c.key) : c.States project deed.declaration := by
  induction methods generalizing seen with
  | nil => cases listed
  | cons first rest ih =>
      have firstListed : first ∈ c.methods := declared List.mem_cons_self
      rcases List.mem_append.mp listed with now | later
      · rcases List.mem_cons.mp now with rfl | reference
        · rw [List.mem_singleton.mp done]
          exact .method firstListed
        · obtain ⟨u, -, rfl⟩ := List.mem_map.mp reference
          exact states_of_mem_depend done
      · exact ih (fun m more => declared (List.mem_cons_of_mem first more)) later

/-- A class does nothing but declare what it states, and count dependencies on it. -/
theorem states_of_mem_allDeeds {deed : Deed} (listed : deed ∈ c.allDeeds project) :
    c.States project deed.declaration := by
  rcases List.mem_append.mp listed with placed | scanned
  · rcases Deed.mem_placement_iff.mp placed with rfl | ⟨package, packaged, rfl⟩ | rfl
    · exact .project
    · exact .package packaged
    · exact .type
  · rcases List.mem_append.mp scanned with opened | mentioned
    · rcases List.mem_append.mp opened with supertype | field
      · obtain ⟨d, -, done⟩ := List.mem_flatMap.mp supertype
        exact states_of_mem_depend done
      · obtain ⟨f, declared, rfl⟩ := List.mem_map.mp field
        exact .field declared
    · obtain ⟨m, mention, done⟩ := List.mem_flatMap.mp mentioned
      exact states_of_mem_mention (List.Subset.refl _) mention done

end ClassFacts

/-! ## Layers -/

/-- The declarations of some classes, in the order of their deeds. -/
def declarationsOf (project : String) (classes : List ClassFacts) : List Declaration :=
  (classes.flatMap (ClassFacts.allDeeds project)).map Deed.declaration

section Declarations

variable {project : String} {classes : List ClassFacts} {c : ClassFacts} {d : Declaration}

theorem states_of_mem_declarationsOf (listed : d ∈ declarationsOf project classes) :
    ∃ c ∈ classes, c.States project d := by
  obtain ⟨deed, done, rfl⟩ := List.mem_map.mp listed
  obtain ⟨c, member, done⟩ := List.mem_flatMap.mp done
  exact ⟨c, member, ClassFacts.states_of_mem_allDeeds done⟩

/-- The project, the package and the type of a class are declared. -/
theorem mem_declarationsOf_of_placement (member : c ∈ classes)
    (placed : .declare d ∈ Deed.placement project c.key) : d ∈ declarationsOf project classes :=
  List.mem_map.mpr
    ⟨.declare d, List.mem_flatMap.mpr ⟨c, member, List.mem_append_left _ placed⟩, rfl⟩

end Declarations

/-- The key of the owner of an element, in a scan without source files. -/
def expectedOwner (project : String) : Kind → String → Option String
  | .package, _ => some project
  | .type, key => some ((Key.package? key).getD project)
  | .method, key | .field, key => Key.owner? key
  | _, _ => none

/-- Projects, packages, types, members. -/
def Kind.layer : Kind → Nat
  | .project | .file | .external => 0
  | .package => 1
  | .type => 2
  | .method | .field => 3

/-- What plain classes declare is layered: the project owns packages, packages own types, types own
members, and placeholders have no owner. -/
theorem layered_declarationsOf (project : String) {classes : List ClassFacts}
    (plain : ∀ c ∈ classes, c.Plain) :
    Layered (expectedOwner project) Kind.layer (declarationsOf project classes) where
  parents {d} listed := by
    obtain ⟨c, member, states⟩ := states_of_mem_declarationsOf listed
    cases states with
    | project => rfl
    | package packaged => rfl
    | type => rfl
    | field listed => exact (Key.owner?_member (plain c member) _).symm
    | method listed => exact (Key.owner?_member (plain c member) _).symm
    | target key => rfl
  placeholders _ := rfl
  owners {d ownerKey} listed parent := by
    obtain ⟨c, member, states⟩ := states_of_mem_declarationsOf listed
    -- every class has declared the project and its type, so these owners are there
    have projectListed : .project project ∈ declarationsOf project classes :=
      mem_declarationsOf_of_placement member (Deed.mem_placement_iff.mpr (.inl rfl))
    have typeListed : .type c.key (some ((Key.package? c.key).getD project)) ∈
        declarationsOf project classes :=
      mem_declarationsOf_of_placement member (Deed.mem_placement_iff.mpr (.inr (.inr rfl)))
    obtain ⟨project_definite, package_definite, type_definite⟩ :
        Kind.project ≠ .external ∧ Kind.package ≠ .external ∧ Kind.type ≠ .external := by decide
    cases states with
    | project => cases parent
    | package packaged =>
        cases parent
        exact ⟨_, projectListed, rfl, project_definite, Nat.zero_lt_one⟩
    | type =>
        cases parent
        cases packaged : Key.package? c.key with
        | none => exact ⟨_, projectListed, rfl, project_definite, Nat.zero_lt_two⟩
        | some key =>
            have packageListed : .package key project ∈ declarationsOf project classes :=
              mem_declarationsOf_of_placement member
                (Deed.mem_placement_iff.mpr (.inr (.inl ⟨key, packaged, rfl⟩)))
            exact ⟨_, packageListed, rfl, package_definite, Nat.one_lt_two⟩
    | field listed =>
        cases parent
        exact ⟨_, typeListed, rfl, type_definite, Nat.lt_succ_self 2⟩
    | method listed =>
        cases parent
        exact ⟨_, typeListed, rfl, type_definite, Nat.lt_succ_self 2⟩
    | target key => cases parent

/-! ## The whole scan -/

namespace Outline

variable {project path : String} {done classes : List ClassFacts} {c : ClassFacts}

/-- The outline of classes that do not get in each other's way. -/
def ofClasses (project : String) (classes : List ClassFacts) : Outline where
  accepted := classes
  deeds := classes.flatMap (ClassFacts.allDeeds project)

/-- A class declares no type but its own. -/
theorem knowsType_ofClasses (new : c.key ∉ done.map ClassFacts.key) :
    ¬ (ofClasses project done).knowsType c.key = true := by
  rw [knowsType, List.any_eq_true]
  rintro ⟨deed, listed, known⟩
  rw [Bool.and_eq_true, beq_iff_eq, beq_iff_eq] at known
  have declared : deed.declaration ∈ declarationsOf project done := List.mem_map_of_mem listed
  generalize deed.declaration = d at known declared
  obtain ⟨c', member, states⟩ := states_of_mem_declarationsOf declared
  obtain ⟨kind, key⟩ := known
  cases states with
  | type => exact new (key ▸ List.mem_map_of_mem member)
  | _ => cases kind

/-- One more class of a new key is scanned as the outline of all of them says. -/
theorem scanClass_ofClasses (plain : ∀ c' ∈ done ++ [c], c'.Plain)
    (new : c.key ∉ done.map ClassFacts.key) :
    (ofClasses project done).scanClass project path c = ofClasses project (done ++ [c]) := by
  have elsewhere : ∀ place ∈ (ofClasses project done).seen, ∃ c' : ClassFacts, c'.Plain ∧
      c'.key ≠ c.key ∧ place ∈ c'.uses.map Use.place := by
    intro place listed
    rw [seen, List.map_flatMap, List.mem_flatMap] at listed
    obtain ⟨c', member, listed⟩ := listed
    refine ⟨c', plain c' (List.mem_append_left _ member), fun same => new ?_, listed⟩
    exact same ▸ List.mem_map_of_mem member
  have mentions := ClassFacts.mentions_of_elsewhere
    (plain c (List.mem_append_right _ (List.mem_singleton_self c))) elsewhere
  have fresh : c.key ∉ (ofClasses project done).accepted.map ClassFacts.key := new
  rw [scanClass, if_neg fresh, placing, if_neg (knowsType_ofClasses new), ClassFacts.deeds,
    mentions]
  simp [ofClasses, ClassFacts.allDeeds, ClassFacts.deeds]

/-- Distinct classes one after the other are scanned as the outline of all of them at once. -/
theorem foldl_scanClass_ofClasses (plain : ∀ c ∈ done ++ classes, c.Plain)
    (distinct : ((done ++ classes).map ClassFacts.key).Nodup) :
    classes.foldl (scanClass project path) (ofClasses project done) =
      ofClasses project (done ++ classes) := by
  induction classes generalizing done with
  | nil => rw [List.append_nil, List.foldl_nil]
  | cons c rest ih =>
      rw [List.append_cons] at plain distinct ⊢
      have new : c.key ∉ done.map ClassFacts.key := by
        rw [List.map_append, List.map_append, List.nodup_append, List.nodup_append] at distinct
        intro listed
        exact distinct.1.2.2 c.key listed c.key (List.mem_singleton_self _) rfl
      have opened : ∀ c' ∈ done ++ [c], c'.Plain :=
        fun c' listed => plain c' (List.mem_append_left rest listed)
      rw [List.foldl_cons, scanClass_ofClasses opened new, ih plain distinct]

/-- Scanning classes with distinct keys one by one gives the outline of all of them.  Each class is
accepted, since its key has not occurred before. -/
theorem scan_ofClasses {artifacts : List Artifact} (intact : ∀ a ∈ artifacts, a.error = none)
    (plain : ∀ c ∈ done ++ artifacts.flatMap Artifact.classes, c.Plain)
    (distinct : ((done ++ artifacts.flatMap Artifact.classes).map ClassFacts.key).Nodup) :
    (ofClasses project done).scan project artifacts =
      ofClasses project (done ++ artifacts.flatMap Artifact.classes) := by
  unfold scan
  induction artifacts generalizing done with
  | nil => rw [List.flatMap_nil, List.append_nil, List.foldl_nil]
  | cons a rest ih =>
      rw [List.flatMap_cons, ← List.append_assoc] at plain distinct ⊢
      have first : scanArtifact project (ofClasses project done) a =
          ofClasses project (done ++ a.classes) := by
        unfold scanArtifact
        rw [intact a List.mem_cons_self]
        refine foldl_scanClass_ofClasses (fun c listed => ?_) ?_
        · exact plain c (List.mem_append_left _ listed)
        · rw [List.map_append] at distinct
          exact distinct.of_append_left
      rw [List.foldl_cons, first]
      exact ih (fun a' listed => intact a' (List.mem_cons_of_mem a listed)) plain distinct

/-- **The outline of intact artifacts with plain and distinct classes**: every class is accepted and
does its deeds, in the order of the classes. -/
theorem scan_eq {artifacts : List Artifact} (intact : ∀ a ∈ artifacts, a.error = none)
    (plain : ∀ c ∈ artifacts.flatMap Artifact.classes, c.Plain)
    (distinct : ((artifacts.flatMap Artifact.classes).map ClassFacts.key).Nodup) :
    scan project {} artifacts = ofClasses project (artifacts.flatMap Artifact.classes) :=
  @scan_ofClasses project [] artifacts intact plain distinct

end Outline

end CodeMetrics
