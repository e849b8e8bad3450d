import CodeMetrics.BytecodeScan
import CodeMetrics.Proofs.Graph.Tally

/-!
# A bytecode scan by keys

What a bytecode scan records does not depend on handles, on the graph or on the index it works on,
as long as nothing is refused.  This module says what it records, by keys alone.

* A class is accepted if no class of the same key was accepted before (`firstBy`).
* A reference is applied if its method had none at the same site before (`applied`).
* An accepted class makes a list of *deeds*: it declares elements and counts dependencies.

`Outline` is the scan as a machine over these three lists; it never fails.  A list of deeds is
`Consistent` if the declarations in it fit together.  That is what the index checks step by step.
-/

namespace CodeMetrics

/-! ## First occurrences -/

section FirstBy

variable {α β : Type} [DecidableEq β]

/-- Walks a list and keeps the first element for each value of `f`; the values in `seen` count as
met before. -/
def firstBy (f : α → β) : List β → List α → List α
  | _, [] => []
  | seen, a :: rest =>
    if f a ∈ seen then firstBy f seen rest else a :: firstBy f (f a :: seen) rest

/-- Only which values of the list were met before matters. -/
theorem firstBy_congr {f : α → β} {seen seen' : List β} {l : List α}
    (same : ∀ a ∈ l, f a ∈ seen ↔ f a ∈ seen') : firstBy f seen l = firstBy f seen' l := by
  induction l generalizing seen seen' with
  | nil => rfl
  | cons a rest ih =>
      have same_rest : ∀ b ∈ rest, f b ∈ seen ↔ f b ∈ seen' :=
        fun b listed => same b (List.mem_cons_of_mem a listed)
      have same_cons : ∀ b ∈ rest, f b ∈ f a :: seen ↔ f b ∈ f a :: seen' := by
        intro b listed
        rw [List.mem_cons, List.mem_cons, same_rest b listed]
      simp only [firstBy, same a List.mem_cons_self, ih same_rest, ih same_cons]

/-- A walk over two lists meets in the second what is new after the first.  So a scan over artifacts
can be cut anywhere, with what was seen handed on. -/
theorem firstBy_append (f : α → β) (seen : List β) (l l' : List α) :
    firstBy f seen (l ++ l') = firstBy f seen l ++ firstBy f (l.map f ++ seen) l' := by
  induction l generalizing seen with
  | nil => rfl
  | cons a rest ih =>
      rw [List.cons_append, firstBy, firstBy]
      split
      · next known =>
          rw [ih]
          congr 1
          refine firstBy_congr fun b _ => ?_
          simp only [List.map_cons, List.cons_append, List.mem_cons, List.mem_append]
          refine (or_iff_right_of_imp fun same => ?_).symm
          rw [same]
          exact .inr known
      · rw [ih, List.cons_append]
        congr 2
        refine firstBy_congr fun b _ => ?_
        simp only [List.map_cons, List.cons_append, List.mem_cons, List.mem_append]
        exact or_left_comm

/-- Dropping repetitions loses no value: what was seen and what is kept are all there is. -/
theorem mem_map_firstBy {f : α → β} {seen : List β} {l : List α} {b : β} :
    b ∈ (firstBy f seen l).map f ++ seen ↔ b ∈ l.map f ++ seen := by
  induction l generalizing seen with
  | nil => rfl
  | cons a rest ih =>
      rw [firstBy]
      split
      · next known =>
          rw [ih, List.map_cons, List.cons_append, List.mem_cons]
          constructor
          · exact .inr
          · rintro (rfl | listed)
            · exact List.mem_append_right _ known
            · exact listed
      · have step := @ih (f a :: seen)
        simp only [List.map_cons, List.cons_append, List.mem_cons, List.mem_append] at step ⊢
        rw [or_left_comm, step, or_left_comm]

/-- What is kept is listed, and was not seen before. -/
theorem mem_of_mem_firstBy {f : α → β} {seen : List β} {l : List α} {a : α}
    (kept : a ∈ firstBy f seen l) : a ∈ l ∧ f a ∉ seen := by
  induction l generalizing seen with
  | nil => cases kept
  | cons b rest ih =>
      rw [firstBy] at kept
      split at kept
      · obtain ⟨listed, new⟩ := ih kept
        exact ⟨List.mem_cons_of_mem b listed, new⟩
      · next fresh =>
          rcases List.mem_cons.mp kept with rfl | later
          · exact ⟨List.mem_cons_self, fresh⟩
          · obtain ⟨listed, new⟩ := ih later
            exact ⟨List.mem_cons_of_mem b listed, fun known => new (List.mem_cons_of_mem _ known)⟩

/-- No value is kept twice. -/
theorem nodup_map_firstBy (f : α → β) (seen : List β) (l : List α) :
    ((firstBy f seen l).map f).Nodup := by
  induction l generalizing seen with
  | nil => exact List.nodup_nil
  | cons a rest ih =>
      rw [firstBy]
      split
      · exact ih seen
      · rw [List.map_cons, List.nodup_cons]
        refine ⟨fun again => ?_, ih _⟩
        obtain ⟨b, kept, same⟩ := List.mem_map.mp again
        exact (mem_of_mem_firstBy kept).2 (by rw [same]; exact List.mem_cons_self)

end FirstBy

/-! ## References -/

/-- The kind of dependency that a reference is. -/
def Reference.edgeKind : Reference → EdgeKind
  | .call _ => .call
  | .access _ => .fieldUse

/-- A reference with the keys of the class and of the method that hold it. -/
structure Use where
  type : String
  method : String
  reference : Reference
deriving DecidableEq

namespace Use

/-- Where a reference stands: two references of one method at one site are one. -/
def place (u : Use) : String × UInt32 := (u.method, u.reference.site)

/-- The dependency that a reference stands for. -/
def dependency (u : Use) : Dependency := ⟨u.type, u.reference.owner, u.reference.edgeKind⟩

end Use

namespace ClassFacts

/-- The references of one method of a class, in order. -/
def usesOf (c : ClassFacts) (m : Method) : List Use :=
  m.body.map fun r => ⟨c.key, c.methodKey m, r⟩

/-- The references of a class, in order. -/
def uses (c : ClassFacts) : List Use := c.methods.flatMap c.usesOf

/-- The dependencies of a class on its supertypes. -/
def supertypes (c : ClassFacts) : List Dependency :=
  c.superclass.toList.map (⟨c.key, ·, .extension⟩) ++
    c.interfaces.map (⟨c.key, ·, .implementation⟩)

end ClassFacts

/-- The classes that a scan accepts: of those with one key, the first. -/
def accepted (classes : List ClassFacts) : List ClassFacts := firstBy ClassFacts.key [] classes

/-- The references that a scan applies: of those at one place, the first. -/
def applied (classes : List ClassFacts) : List Use :=
  firstBy Use.place [] (classes.flatMap ClassFacts.uses)

/-- One more class has its references applied where no earlier class has taken their places. -/
theorem applied_concat (classes : List ClassFacts) (c : ClassFacts) :
    applied (classes ++ [c]) =
      applied classes ++
        firstBy Use.place ((classes.flatMap ClassFacts.uses).map Use.place) c.uses := by
  unfold applied
  rw [List.flatMap_append, firstBy_append, List.append_nil, List.flatMap_singleton]

/-! ## Deeds -/

/-- What a scan does to the model. -/
inductive Deed where
  /-- An element is registered. -/
  | declare (d : Declaration)
  /-- A dependency between two different types is counted. -/
  | count (d : Dependency)
deriving DecidableEq

namespace Deed

/-- What a deed says about one key.  The target of a dependency is at least a placeholder. -/
def declaration : Deed → Declaration
  | .declare d => d
  | .count d => ⟨.external, d.target, none⟩

/-- The dependency that a deed counts. -/
def dependency? : Deed → Option Dependency
  | .declare _ => none
  | .count d => some d

/-- The deeds of a dependency; a type's dependency on itself has none. -/
def depend (d : Dependency) : List Deed := if d.source = d.target then [] else [.count d]

/-- The deeds of a type that is placed in its package, which belongs to `project`. -/
def placement (project key : String) : List Deed :=
  match Key.package? key with
  | none => [.declare (.project project), .declare (.type key (some project))]
  | some package =>
    [.declare (.project project), .declare (.package package project),
      .declare (.type key (some package))]

end Deed

/-- The declarations in a list of deeds fit together. -/
def Consistent (ds : List Deed) : Prop :=
  ∀ d ∈ ds, ∀ d' ∈ ds, d.declaration.key = d'.declaration.key →
    d.declaration.kind.Fits d'.declaration.kind

theorem Consistent.mono {ds ds' : List Deed} (consistent : Consistent ds') (sub : ds ⊆ ds') :
    Consistent ds :=
  fun d listed d' listed' same => consistent d (sub listed) d' (sub listed') same

/-! ## Mentions -/

/-- What visitors are told of while a class is scanned. -/
inductive Mention where
  | method (key : String)
  | reference (use : Use)
deriving DecidableEq

namespace Mention

/-- The deeds of a mention in the class of key `type`. -/
def deeds (type : String) : Mention → List Deed
  | .method key => [.declare ⟨.method, key, some type⟩]
  | .reference u => Deed.depend u.dependency

/-- The reference of a mention. -/
def use? : Mention → Option Use
  | .method _ => none
  | .reference u => some u

end Mention

namespace ClassFacts

/-- The mentions of one method: itself, then the references that are new. -/
def mentionsOf (c : ClassFacts) (seen : List (String × UInt32)) (m : Method) : List Mention :=
  .method (c.methodKey m) :: (firstBy Use.place seen (c.usesOf m)).map .reference

/-- The mentions of some methods of a class, in order. -/
def mentionsIn (c : ClassFacts) : List (String × UInt32) → List Method → List Mention
  | _, [] => []
  | seen, m :: rest =>
    c.mentionsOf seen m ++ c.mentionsIn ((c.usesOf m).map Use.place ++ seen) rest

/-- The mentions of a class. -/
def mentions (c : ClassFacts) (seen : List (String × UInt32)) : List Mention :=
  c.mentionsIn seen c.methods

/-- The deeds of a class when it is opened: its supertypes and its fields. -/
def opening (c : ClassFacts) : List Deed :=
  c.supertypes.flatMap Deed.depend ++ c.fields.map fun field => .declare (.field c.key field.name)

/-- The deeds of a class once its type is placed. -/
def deeds (c : ClassFacts) (seen : List (String × UInt32)) : List Deed :=
  c.opening ++ (c.mentions seen).flatMap (Mention.deeds c.key)

/-- Only which places of the methods were seen before matters, and not in which order or how often.
-/
theorem mentionsIn_congr (c : ClassFacts) {seen seen' : List (String × UInt32)}
    {methods : List Method}
    (same : ∀ u ∈ methods.flatMap c.usesOf, u.place ∈ seen ↔ u.place ∈ seen') :
    c.mentionsIn seen methods = c.mentionsIn seen' methods := by
  induction methods generalizing seen seen' with
  | nil => rfl
  | cons m rest ih =>
      have same_first : ∀ u ∈ c.usesOf m, u.place ∈ seen ↔ u.place ∈ seen' :=
        fun u listed => same u (List.mem_append_left _ listed)
      have same_rest : ∀ u ∈ rest.flatMap c.usesOf,
          u.place ∈ (c.usesOf m).map Use.place ++ seen ↔
            u.place ∈ (c.usesOf m).map Use.place ++ seen' := by
        intro u listed
        rw [List.mem_append, List.mem_append, same u (List.mem_append_right _ listed)]
      rw [mentionsIn, mentionsIn, mentionsOf, mentionsOf, firstBy_congr same_first, ih same_rest]

/-- The mentions of more methods follow, with the places of the earlier ones taken. -/
theorem mentionsIn_concat (c : ClassFacts) (seen : List (String × UInt32)) (methods : List Method)
    (m : Method) :
    c.mentionsIn seen (methods ++ [m]) =
      c.mentionsIn seen methods ++
        c.mentionsOf ((methods.flatMap c.usesOf).map Use.place ++ seen) m := by
  induction methods generalizing seen with
  | nil =>
      rw [List.nil_append, mentionsIn]
      exact List.append_nil _
  | cons first rest ih =>
      rw [List.cons_append, mentionsIn, mentionsIn, ih, List.append_assoc]
      congr 2
      unfold mentionsOf
      congr 2
      refine firstBy_congr fun u _ => ?_
      simp only [List.flatMap_cons, List.map_append, List.mem_append]
      exact or_left_comm.trans or_assoc.symm

theorem filterMap_use?_mentionsIn (c : ClassFacts) (seen : List (String × UInt32))
    (methods : List Method) :
    (c.mentionsIn seen methods).filterMap Mention.use? =
      firstBy Use.place seen (methods.flatMap c.usesOf) := by
  induction methods generalizing seen with
  | nil => rfl
  | cons m rest ih =>
      rw [mentionsIn, List.filterMap_append, ih, List.flatMap_cons, firstBy_append]
      congr 1
      rw [mentionsOf, List.filterMap_cons_none rfl, List.filterMap_map]
      exact List.filterMap_some

/-- The references mentioned are the ones that are new. -/
theorem filterMap_use?_mentions (c : ClassFacts) (seen : List (String × UInt32)) :
    (c.mentions seen).filterMap Mention.use? = firstBy Use.place seen c.uses :=
  c.filterMap_use?_mentionsIn seen c.methods

end ClassFacts

/-! ## The scan -/

/-- What a scan has recorded, by keys. -/
structure Outline where
  /-- The classes accepted so far. -/
  accepted : List ClassFacts := []
  deeds : List Deed := []
  /-- The issues that are no refusals. -/
  notices : List Issue := []

namespace Outline

/-- The places of all references in the classes accepted so far. -/
def seen (o : Outline) : List (String × UInt32) :=
  (o.accepted.flatMap ClassFacts.uses).map Use.place

/-- Whether a key was declared as a type. -/
def knowsType (o : Outline) (key : String) : Bool :=
  o.deeds.any fun d => d.declaration.kind == .type && d.declaration.key == key

/-- The deeds that place the type of a class.  A type that is known stays where it is. -/
def placing (o : Outline) (project key : String) : List Deed :=
  if o.knowsType key then [] else Deed.placement project key

/-- Applies a class found in the artifact at `path`. -/
def scanClass (project path : String) (o : Outline) (c : ClassFacts) : Outline :=
  if c.key ∈ o.accepted.map ClassFacts.key then
    { o with notices := o.notices ++ [.duplicateClass path c.key] }
  else
    { o with
      accepted := o.accepted ++ [c]
      deeds := o.deeds ++ (o.placing project c.key ++ c.deeds o.seen) }

/-- Applies the classes of an artifact. -/
def scanArtifact (project : String) (o : Outline) (a : Artifact) : Outline :=
  let scanned := a.classes.foldl (scanClass project a.path) o
  match a.error with
  | none => scanned
  | some e =>
    { scanned with
      notices := scanned.notices ++ [.decodeFailed a.path e.message a.classes.length] }

/-- Applies artifacts in order. -/
def scan (project : String) (o : Outline) (artifacts : List Artifact) : Outline :=
  artifacts.foldl (scanArtifact project) o

variable {o : Outline} {project path : String}

/-- A class is accepted unless its key is that of an accepted class. -/
theorem accepted_scanClass (o : Outline) (c : ClassFacts) :
    (o.scanClass project path c).accepted =
      o.accepted ++ firstBy ClassFacts.key (o.accepted.map ClassFacts.key) [c] := by
  unfold scanClass
  rw [firstBy, firstBy]
  split
  · exact (List.append_nil _).symm
  · rfl

/-- Of the classes of an artifact those are accepted that come first with their keys. -/
theorem accepted_foldl_scanClass (o : Outline) (classes : List ClassFacts) :
    (classes.foldl (scanClass project path) o).accepted =
      o.accepted ++ firstBy ClassFacts.key (o.accepted.map ClassFacts.key) classes := by
  induction classes generalizing o with
  | nil => exact (List.append_nil _).symm
  | cons c rest ih =>
      have split_first := firstBy_append ClassFacts.key (o.accepted.map ClassFacts.key) [c] rest
      rw [List.singleton_append] at split_first
      rw [List.foldl_cons, ih, accepted_scanClass, List.append_assoc, split_first]
      congr 2
      refine firstBy_congr fun c _ => ?_
      rw [List.map_append, List.mem_append, or_comm, ← List.mem_append, mem_map_firstBy]

theorem accepted_scanArtifact (o : Outline) (a : Artifact) :
    (o.scanArtifact project a).accepted =
      (a.classes.foldl (scanClass project a.path) o).accepted := by
  unfold scanArtifact
  cases a.error <;> rfl

/-- The accepted classes are the first ones of their keys, over all artifacts. -/
theorem accepted_scan (o : Outline) (artifacts : List Artifact) :
    (o.scan project artifacts).accepted =
      o.accepted ++ firstBy ClassFacts.key (o.accepted.map ClassFacts.key)
        (artifacts.flatMap Artifact.classes) := by
  unfold scan
  induction artifacts generalizing o with
  | nil => exact (List.append_nil _).symm
  | cons a rest ih =>
      rw [List.foldl_cons, ih, accepted_scanArtifact, accepted_foldl_scanClass, List.append_assoc,
        List.flatMap_cons, firstBy_append]
      congr 2
      refine firstBy_congr fun c _ => ?_
      rw [List.map_append, List.mem_append, or_comm, ← List.mem_append, mem_map_firstBy]

/-- A scan that has accepted nothing yet accepts the first classes of their keys. -/
theorem accepted_scan_start (project : String) (deeds : List Deed) (artifacts : List Artifact) :
    (scan project { deeds := deeds } artifacts).accepted =
      CodeMetrics.accepted (artifacts.flatMap Artifact.classes) :=
  accepted_scan _ artifacts

/-- What holds at the start and is kept by every class holds after the scan.  Notices are put in
between, for artifacts that failed. -/
theorem scan_induction {motive : Outline → Prop} (artifacts : List Artifact) (start : motive o)
    (class_kept : ∀ o path c, motive o → motive (scanClass project path o c))
    (notice_kept : ∀ (o : Outline) notices, motive o → motive { o with notices := notices }) :
    motive (o.scan project artifacts) := by
  unfold scan
  induction artifacts generalizing o with
  | nil => exact start
  | cons a rest ih =>
      refine ih ?_
      have scanned : motive (a.classes.foldl (scanClass project a.path) o) := by
        clear ih
        induction a.classes generalizing o with
        | nil => exact start
        | cons c more ih => exact ih (class_kept o a.path c start)
      unfold scanArtifact
      cases a.error with
      | none => exact scanned
      | some e => exact notice_kept _ _ scanned

end Outline

/-! ## Counted dependencies -/

/-- The dependencies that are counted in a list of deeds. -/
def counted (ds : List Deed) : List Dependency := ds.filterMap Deed.dependency?

/-- The dependencies of the accepted classes: on their supertypes, and through the references that
are applied. -/
def dependencies (classes : List ClassFacts) : List Dependency :=
  (classes.flatMap ClassFacts.supertypes ++ (applied classes).map Use.dependency).filter
    fun d => d.source != d.target

theorem counted_append (ds ds' : List Deed) : counted (ds ++ ds') = counted ds ++ counted ds' :=
  List.filterMap_append

/-- A dependency is counted unless it leads back to its source. -/
theorem counted_flatMap_depend (l : List Dependency) :
    counted (l.flatMap Deed.depend) = l.filter fun d => d.source != d.target := by
  induction l with
  | nil => rfl
  | cons d rest ih =>
      rw [List.flatMap_cons, counted_append, ih]
      by_cases same : d.source = d.target
      · simp [Deed.depend, counted, same]
      · simp [Deed.depend, counted, Deed.dependency?, same]

theorem counted_declare (l : List Declaration) : counted (l.map .declare) = [] := by
  simp [counted, Deed.dependency?]

theorem counted_placing (o : Outline) (project key : String) :
    counted (o.placing project key) = [] := by
  unfold Outline.placing Deed.placement
  split
  · rfl
  · split <;> rfl

/-- What the mentions of a class count are the dependencies of its references. -/
theorem counted_flatMap_mention (type : String) (mentions : List Mention) :
    counted (mentions.flatMap (Mention.deeds type)) =
      ((mentions.filterMap Mention.use?).map Use.dependency).filter
        fun d => d.source != d.target := by
  rw [← counted_flatMap_depend]
  induction mentions with
  | nil => rfl
  | cons m rest ih =>
      rw [List.flatMap_cons, counted_append, ih]
      cases m with
      | method key => rfl
      | reference u =>
          have used : Mention.use? (.reference u) = some u := rfl
          rw [List.filterMap_cons_some used, List.map_cons, List.flatMap_cons, counted_append]
          rfl

/-- A class counts its supertypes and the references that are new. -/
theorem counted_deeds (c : ClassFacts) (seen : List (String × UInt32)) :
    counted (c.deeds seen) =
      (c.supertypes ++ (firstBy Use.place seen c.uses).map Use.dependency).filter
        fun d => d.source != d.target := by
  have fields : counted (c.fields.map fun field => .declare (.field c.key field.name)) = [] := by
    simp [counted, Deed.dependency?]
  rw [ClassFacts.deeds, ClassFacts.opening, counted_append, counted_append, fields,
    List.append_nil, counted_flatMap_depend, counted_flatMap_mention,
    c.filterMap_use?_mentions, List.filter_append]

/-- Every class adds what it counts. -/
theorem dependencies_concat (classes : List ClassFacts) (c : ClassFacts) :
    (dependencies (classes ++ [c])).Perm
      (dependencies classes ++
        counted (c.deeds ((classes.flatMap ClassFacts.uses).map Use.place))) := by
  rw [counted_deeds, dependencies, dependencies, ← List.filter_append, applied_concat,
    List.flatMap_append, List.flatMap_singleton, List.map_append]
  refine List.Perm.filter _ ?_
  rw [List.append_assoc, List.append_assoc]
  refine List.Perm.append_left _ ?_
  rw [← List.append_assoc, ← List.append_assoc]
  exact List.Perm.append_right _ List.perm_append_comm

/-- The dependencies counted by a scan are those of the accepted classes, up to their order: a class
does its deeds when it is met, and its supertypes come before its references. -/
theorem Outline.counted_scan (project : String) (declared : List Declaration)
    (artifacts : List Artifact) :
    (counted (scan project { deeds := declared.map .declare } artifacts).deeds).Perm
      (dependencies (CodeMetrics.accepted (artifacts.flatMap Artifact.classes))) := by
  let motive (o : Outline) : Prop := (counted o.deeds).Perm (dependencies o.accepted)
  have class_kept (o : Outline) (path : String) (c : ClassFacts) (before : motive o) :
      motive (scanClass project path o c) := by
    unfold motive scanClass
    split
    · exact before
    · simp only [counted_append, counted_placing, List.nil_append]
      exact (before.append_right _).trans (dependencies_concat o.accepted c).symm
  have start : motive { deeds := declared.map .declare } := by
    unfold motive
    rw [counted_declare]
    exact List.Perm.refl _
  rw [← accepted_scan_start project (declared.map .declare) artifacts]
  exact @scan_induction _ project motive artifacts start class_kept fun _ _ before => before

end CodeMetrics
