import CodeMetrics.Proofs.Index.History
import CodeMetrics.Proofs.Scan.Members

/-!
# Undisputed findings and an outline

As long as nothing is disputed, the findings of a bytecode scan agree with the outline of it.  The
agreement has three parts:

* `Enlisted`: the types that count as scanned are the types of the accepted classes;
* `Heirs`: a superclass is recorded for the accepted classes and for nothing else;
* `Visits`: the accepted classes have what the visitors attach, and nothing else has.

All three are said by keys, so that they survive whatever is registered later.  Together with the
sites and the issues they are `BytecodeScan.Followed`, which one more class keeps.
-/

namespace CodeMetrics

open Std (ExtTreeMap)

/-! ## The accepted classes -/

/-- The types that were scanned are the types of the classes. -/
structure Enlisted (classes : List ClassFacts) (types : List Handle) (ix : Index) : Prop where
  typed : ∀ {c : ClassFacts}, c ∈ classes → ∃ h, ix.IsType h c.key
  types : ∀ {h : Handle}, h ∈ types ↔ ∃ c ∈ classes, ix.key? h = some c.key

namespace Enlisted

variable {classes : List ClassFacts} {types : List Handle} {ix ix' : Index} {c : ClassFacts}
  {h : Handle}

theorem empty (ix : Index) : Enlisted [] [] ix where
  typed listed := by cases listed
  types := by simp

/-- The key of a class stays with its type. -/
theorem key?_iff (enlisted : Enlisted classes types ix) (grows : ix.Grows ix')
    (coherent : ix'.Coherent) (listed : c ∈ classes) :
    ix'.key? h = some c.key ↔ ix.key? h = some c.key := by
  refine ⟨fun named => ?_, grows.key_kept⟩
  obtain ⟨g, type⟩ := enlisted.typed listed
  rw [coherent.key?_injective named (grows.key_kept type.1)]
  exact type.1

theorem grows (enlisted : Enlisted classes types ix) (grows : ix.Grows ix')
    (coherent : ix'.Coherent) : Enlisted classes types ix' where
  typed listed := by
    obtain ⟨h, type⟩ := enlisted.typed listed
    exact ⟨h, type.grows grows⟩
  types {h} := by
    rw [enlisted.types]
    refine exists_congr fun c => and_congr_right fun listed => ?_
    exact (enlisted.key?_iff grows coherent listed).symm

theorem mem_types_iff (enlisted : Enlisted classes types ix) {key : String}
    (type : ix.IsType h key) : h ∈ types ↔ key ∈ classes.map ClassFacts.key := by
  rw [enlisted.types, type.1, List.mem_map]
  refine exists_congr fun c => and_congr_right fun _ => ?_
  rw [Option.some.injEq]
  exact eq_comm

/-- A class is entered: its type joins the types that were entered, and its key those of the
classes. -/
theorem add (enlisted : Enlisted classes types ix) (coherent : ix.Coherent)
    (type : ix.IsType h c.key) : Enlisted (classes ++ [c]) (h :: types) ix where
  typed listed := by
    rcases List.mem_append.mp listed with old | new
    · exact enlisted.typed old
    · rw [List.mem_singleton.mp new]
      exact ⟨h, type⟩
  types {g} := by
    rw [List.mem_cons, enlisted.types]
    constructor
    · rintro (rfl | ⟨c', listed, named⟩)
      · exact ⟨c, List.mem_append_right _ (List.mem_singleton_self c), type.1⟩
      · exact ⟨c', List.mem_append_left _ listed, named⟩
    · rintro ⟨c', listed, named⟩
      rcases List.mem_append.mp listed with old | new
      · exact .inr ⟨c', old, named⟩
      · rw [List.mem_singleton.mp new] at named
        exact .inl (coherent.key?_injective named type.1)

end Enlisted

/-! ## Superclasses -/

/-- The recorded superclasses are the ones of the classes. -/
structure Heirs (classes : List ClassFacts) (ix : Index)
    (superclasses : ExtTreeMap Handle (Option Handle)) : Prop where
  recorded : ∀ {h : Handle} {above : Option Handle}, superclasses[h]? = some above ↔
    ∃ c ∈ classes, ix.key? h = some c.key ∧ above = c.superclass.bind ix.handle?
  known : ∀ {c : ClassFacts} {key : String}, c ∈ classes → c.superclass = some key →
    ∃ h, ix.key? h = some key

namespace Heirs

variable {classes : List ClassFacts} {types : List Handle} {ix ix' : Index} {c : ClassFacts}
  {h : Handle} {superclasses : ExtTreeMap Handle (Option Handle)}

theorem empty (ix : Index) : Heirs [] ix ∅ where
  recorded := by simp
  known listed := by cases listed

/-- The superclass of a class stays what it was. -/
theorem superclass_kept (heirs : Heirs classes ix superclasses) (grows : ix.Grows ix')
    (coherent : ix.Coherent) (coherent' : ix'.Coherent) (listed : c ∈ classes) :
    c.superclass.bind ix'.handle? = c.superclass.bind ix.handle? := by
  cases superclass : c.superclass with
  | none => rfl
  | some key =>
      obtain ⟨h, named⟩ := heirs.known listed superclass
      have before := coherent.handle?_iff.mpr named
      rw [Option.bind_some, Option.bind_some, before, grows.handle_kept coherent coherent' before]

theorem grows (heirs : Heirs classes ix superclasses) (enlisted : Enlisted classes types ix)
    (grows : ix.Grows ix') (coherent : ix.Coherent) (coherent' : ix'.Coherent) :
    Heirs classes ix' superclasses where
  recorded {h above} := by
    rw [heirs.recorded]
    refine exists_congr fun c => and_congr_right fun listed => ?_
    rw [enlisted.key?_iff grows coherent' listed,
      heirs.superclass_kept grows coherent coherent' listed]
  known listed superclass := by
    obtain ⟨h, named⟩ := heirs.known listed superclass
    exact ⟨h, grows.key_kept named⟩

/-- A class is entered: its superclass is recorded, at the handle that the key of the superclass
leads to.  The key of the class is new, so no earlier record is replaced. -/
theorem add (heirs : Heirs classes ix superclasses) (coherent : ix.Coherent)
    (type : ix.IsType h c.key) (new : c.key ∉ classes.map ClassFacts.key)
    (known : ∀ key, c.superclass = some key → ∃ q, ix.key? q = some key) :
    Heirs (classes ++ [c]) ix (superclasses.insert h (c.superclass.bind ix.handle?)) where
  recorded {g above} := by
    rw [ExtTreeMap.getElem?_insert]
    simp only [Std.LawfulEqOrd.compare_eq_iff_eq]
    by_cases same : h = g
    · subst same
      rw [if_pos rfl, Option.some.injEq]
      constructor
      · rintro rfl
        exact ⟨c, List.mem_append_right _ (List.mem_singleton_self c), type.1, rfl⟩
      · rintro ⟨c', listed, named, rfl⟩
        rw [type.1, Option.some.injEq] at named
        rcases List.mem_append.mp listed with old | last
        · exact absurd (named ▸ List.mem_map_of_mem old) new
        · rw [List.mem_singleton.mp last]
    · rw [if_neg same, heirs.recorded]
      constructor
      · rintro ⟨c', listed, facts⟩
        exact ⟨c', List.mem_append_left _ listed, facts⟩
      · rintro ⟨c', listed, named, rfl⟩
        rcases List.mem_append.mp listed with old | last
        · exact ⟨c', old, named, rfl⟩
        · rw [List.mem_singleton.mp last] at named
          exact absurd (coherent.key?_injective type.1 named) same
  known {c' key} listed superclass := by
    rcases List.mem_append.mp listed with old | last
    · exact heirs.known old superclass
    · rw [List.mem_singleton.mp last] at superclass
      exact known key superclass

end Heirs

/-! ## Measures -/

namespace ClassFacts

/-- The cohesion graph of a class when it is entered. -/
def cohesionStart (c : ClassFacts) (excluded : String → Bool) (type : Handle) : OpenCohesion where
  type := type
  key := c.key
  graph := (c.fields.filter fun field => !excluded field.name).foldl
    (fun g field => g.addNode (c.fieldKey field)) {}

/-- The size of the response set of a class, from the methods known before and the places seen
before. -/
def response (c : ClassFacts) (methods : List String) (seen : List (String × UInt32)) : Nat :=
  ((c.mentions seen).foldl respond methods).length

/-- The number of components of the cohesion graph of a class. -/
def cohesion (c : ClassFacts) (excluded : String → Bool) (type : Handle)
    (seen : List (String × UInt32)) : Nat :=
  ((c.mentions seen).foldl (cohere excluded)
    (c.cohesionStart excluded type)).complete.components.length

end ClassFacts

/-- The measures after both visitors have left a class. -/
def visitedMeasures (before : ExtTreeMap String Measure) (response cohesion : Nat) :
    ExtTreeMap String Measure :=
  (before.insert Metric.rfc.name (.ofCount response)).insert Metric.lcom4.name (.ofCount cohesion)

/-- The measures of a class are what the visitors have found.  The response set starts with methods
that were declared for the class; the places seen before are of other classes. -/
def Visited (excluded : String → Bool) (o : Outline) (c : ClassFacts) (type : Handle)
    (before after : ExtTreeMap String Measure) : Prop :=
  ∃ methods seen, methods.Nodup ∧
    (∀ key ∈ methods, ⟨.method, key, some c.key⟩ ∈ o.deeds.map Deed.declaration) ∧
    (∀ place ∈ seen, ∃ c' ∈ o.accepted, c'.key ≠ c.key ∧ place ∈ c'.uses.map Use.place) ∧
    after = visitedMeasures before (c.response methods seen) (c.cohesion excluded type seen)

theorem Visited.mono {excluded : String → Bool} {o o' : Outline} {c : ClassFacts} {type : Handle}
    {before after : ExtTreeMap String Measure} (visited : Visited excluded o c type before after)
    (deeds : o.deeds ⊆ o'.deeds) (accepted : o.accepted ⊆ o'.accepted) :
    Visited excluded o' c type before after := by
  obtain ⟨methods, seen, nodup, declared, elsewhere, measures⟩ := visited
  refine ⟨methods, seen, nodup, fun key listed => ?_, fun place listed => ?_, measures⟩
  · exact List.map_subset _ deeds (declared key listed)
  · obtain ⟨c', listed, facts⟩ := elsewhere place listed
    exact ⟨c', accepted listed, facts⟩

/-- Since the start of the scan the visitors have attached their measures to the accepted classes,
and nothing has been attached to anything else. -/
structure Visits (start : Findings) (o : Outline) (ix : Index) : Prop where
  visited : ∀ {c : ClassFacts} {h : Handle}, c ∈ o.accepted → ix.key? h = some c.key →
    Visited start.config.excludes o c h (start.index.measuresOf h) (ix.measuresOf h)
  unvisited : ∀ {h : Handle}, (∀ c ∈ o.accepted, ix.key? h ≠ some c.key) →
    ix.measuresOf h = start.index.measuresOf h

namespace Visits

variable {start : Findings} {o o' : Outline} {types : List Handle} {ix ix' : Index}

theorem empty (start : Findings) (deeds : List Deed) :
    Visits start { deeds := deeds } start.index where
  visited listed := by cases listed
  unvisited _ := rfl

theorem grows (visits : Visits start o ix) (enlisted : Enlisted o.accepted types ix)
    (grows : ix.Grows ix') (coherent : ix'.Coherent)
    (measures : ∀ h, ix'.measuresOf h = ix.measuresOf h) (deeds : o.deeds ⊆ o'.deeds)
    (accepted : o'.accepted = o.accepted) : Visits start o' ix' where
  visited {c h} listed named := by
    rw [accepted] at listed
    rw [enlisted.key?_iff grows coherent listed] at named
    rw [measures]
    exact (visits.visited listed named).mono deeds (by rw [accepted]; exact List.Subset.refl _)
  unvisited {h} other := by
    rw [accepted] at other
    rw [measures]
    refine visits.unvisited fun c listed named => other c listed ?_
    exact (enlisted.key?_iff grows coherent listed).mpr named

/-- A class is left, and its measures are attached.  The measures of the other classes stay as they
were, because they belong to other handles. -/
theorem add (visits : Visits start o ix) {c : ClassFacts} {type : Handle}
    (coherent : ix.Coherent) (is : ix.IsType type c.key)
    (new : c.key ∉ o.accepted.map ClassFacts.key) (keys : ∀ h, ix'.key? h = ix.key? h)
    (visited : Visited start.config.excludes o' c type (start.index.measuresOf type)
      (ix'.measuresOf type))
    (others : ∀ h, h ≠ type → ix'.measuresOf h = ix.measuresOf h) (deeds : o.deeds ⊆ o'.deeds)
    (accepted : o'.accepted = o.accepted ++ [c]) : Visits start o' ix' where
  visited {c' h} listed named := by
    rw [keys] at named
    rw [accepted] at listed
    rcases List.mem_append.mp listed with old | last
    · have other : h ≠ type := by
        rintro rfl
        rw [is.1, Option.some.injEq] at named
        exact new (named ▸ List.mem_map_of_mem old)
      rw [others h other]
      exact (visits.visited old named).mono deeds
        (by rw [accepted]; exact List.subset_append_left _ _)
    · rw [List.mem_singleton.mp last] at named ⊢
      rw [coherent.key?_injective named is.1]
      exact visited
  unvisited {h} other := by
    rw [accepted] at other
    have unlisted (c' : ClassFacts) (listed : c' ∈ o.accepted) : ix.key? h ≠ some c'.key := by
      rw [← keys]
      exact other c' (List.mem_append_left _ listed)
    have notType : h ≠ type := by
      rintro rfl
      refine other c (List.mem_append_right _ (List.mem_singleton_self c)) ?_
      rw [keys, is.1]
    rw [others h notType, visits.unvisited unlisted]

end Visits

namespace Findings

/-- The methods that a class owns already were declared for it.  An owner that the index has was
reported by some deed, and with a kind that fits that of the element. -/
theorem Reflects.declared_of_mem_members {f : Findings} {project : String} {ds : List Deed}
    (reflects : f.Reflects project ds) (steady : f.Steady) {owner key : String}
    (listed : key ∈ (f.index.members owner .method).map Element.key) :
    ⟨.method, key, some owner⟩ ∈ ds.map Deed.declaration := by
  obtain ⟨e, member, rfl⟩ := List.mem_map.mp listed
  obtain ⟨found, is, q, ownerListed, owned⟩ := steady.index.mem_members_iff.mp member
  have parent : f.index.parent? e.handle = some q := by rw [Index.parent?_of_get? found, owned]
  obtain ⟨⟨kind, key, parent⟩, reported, named, ownerKey, rfl, ownerNamed⟩ :=
    reflects.records.owner_reported parent
  have fits := reflects.records.fits steady.index.toCoherent reported named
    (Index.kind?_of_get? found)
  rw [steady.index.handle?_iff.mp ownerListed, Option.some.injEq] at ownerNamed
  rw [Index.key?_of_get? found, Option.some.injEq] at named
  rcases fits with same | ⟨impossible, -⟩
  · rw [is] at same
    subst same ownerNamed named
    exact reported
  · rw [is] at impossible
    cases impossible

end Findings

/-! ## Undisputed findings -/

namespace BytecodeScan

/-- What undisputed findings and the outline have in common. -/
structure Followed (start : Findings) (o : Outline) (progress : Progress) (f : Findings) :
    Prop where
  issues : f.report.issues.toList = start.report.issues.toList ++ o.notices
  enlisted : Enlisted o.accepted progress.types f.index
  sites : Sites f.index o.seen progress.sites
  heirs : Heirs o.accepted f.index f.superclasses
  visits : Visits start o f.index

namespace Followed

variable {start f f₁ f₂ f₃ : Findings} {o : Outline} {progress : Progress} {c : ClassFacts}
  {type : Handle}

theorem extend (followed : Followed start o progress f) (steady : f.Steady) (steady₁ : f₁.Steady)
    (extension : f.Extends f₁) (superclasses : f₁.superclasses = f.superclasses)
    (undisputed : ¬ f₁.Disputed) (more : List Deed) :
    Followed start { o with deeds := o.deeds ++ more } progress f₁ where
  issues := (extension.issues_eq undisputed).trans followed.issues
  enlisted := followed.enlisted.grows extension.grows steady₁.index.toCoherent
  sites := followed.sites.grows extension.grows steady₁.index.toCoherent
  heirs := superclasses ▸ followed.heirs.grows followed.enlisted extension.grows
    steady.index.toCoherent steady₁.index.toCoherent
  visits := followed.visits.grows followed.enlisted extension.grows steady₁.index.toCoherent
    extension.measures (List.subset_append_left _ _) rfl

/-- An issue that is no dispute is noted by both. -/
theorem record (followed : Followed start o progress f) (i : Issue) :
    Followed start { o with notices := o.notices ++ [i] } progress (f.record i) where
  issues := by
    have pushed : (f.record i).report.issues.toList = f.report.issues.toList ++ [i] :=
      Array.toList_push
    rw [pushed, followed.issues, List.append_assoc]
  enlisted := followed.enlisted
  sites := followed.sites
  heirs := followed.heirs
  visits := ⟨followed.visits.visited, followed.visits.unvisited⟩

/-- A class that was opened, scanned and left.  Its type, its superclass, its sites and its measures
join those of the classes before it; that its key is new keeps the earlier entries in place. -/
theorem add (followed : Followed start o progress f) (steady : f.Steady)
    (is : f.index.IsType type c.key) (new : c.key ∉ o.accepted.map ClassFacts.key)
    (opened : f.Extends (f.openClass c type)) (steady₁ : (f.openClass c type).Steady)
    (scanned : (f.openClass c type).Extends f₂) (steady₂ : f₂.Steady) (undisputed : ¬ f₂.Disputed)
    (superclasses : f₂.superclasses = (f.openClass c type).superclasses)
    (left : f₂.Remeasures f₃) {sites : List (Handle × UInt32)}
    (used : Sites f₂.index (c.uses.map Use.place ++ o.seen) sites) {deeds : List Deed}
    (visited : Visited start.config.excludes
      { o with accepted := o.accepted ++ [c], deeds := o.deeds ++ deeds } c type
      (f₂.index.measuresOf type) (f₃.index.measuresOf type))
    (others : ∀ h, h ≠ type → f₃.index.measuresOf h = f₂.index.measuresOf h) :
    Followed start { o with accepted := o.accepted ++ [c], deeds := o.deeds ++ deeds }
      ⟨sites, type :: progress.types⟩ f₃ := by
  -- opened from `f`, scanned up to `f₂`, left with the measures in `f₃`
  have coherent₃ := (left.steady steady₂).index.toCoherent
  have is₂ := is.grows (opened.trans scanned).grows
  have enlisted₂ := followed.enlisted.grows (opened.trans scanned).grows steady₂.index.toCoherent
  have enlisted₃ := enlisted₂.add steady₂.index.toCoherent is₂ |>.grows left.grows coherent₃
  obtain ⟨recorded, known⟩ := Findings.superclasses_openClass steady is
    fun disputed => undisputed (scanned.disputed disputed)
  have enlisted₁ := followed.enlisted.grows opened.grows steady₁.index.toCoherent
  have heirs₁ := (followed.heirs.grows followed.enlisted opened.grows steady.index.toCoherent
    steady₁.index.toCoherent).add steady₁.index.toCoherent (is.grows opened.grows) new known
  have later := scanned.grows.trans left.grows
  have measures : ∀ h, f₂.index.measuresOf h = f.index.measuresOf h :=
    (opened.trans scanned).measures
  -- the type had the measures of the start until now, since no other class has its key
  have unvisited : f₂.index.measuresOf type = start.index.measuresOf type := by
    rw [measures]
    refine followed.visits.unvisited fun c' listed named => new ?_
    rw [is.1, Option.some.injEq] at named
    exact named ▸ List.mem_map_of_mem listed
  have visits₂ : Visits start o f₂.index := followed.visits.grows followed.enlisted
    (opened.trans scanned).grows steady₂.index.toCoherent measures (List.Subset.refl _) rfl
  refine ⟨?_, enlisted₃, ?_, ?_, ?_⟩
  · rw [left.report, (opened.trans scanned).issues_eq undisputed, followed.issues]
  · refine (used.grows left.grows coherent₃).congr fun place => ?_
    simp only [Outline.seen, List.flatMap_append, List.flatMap_singleton, List.map_append,
      List.mem_append]
    exact or_comm
  · rw [left.superclasses, superclasses, recorded]
    exact heirs₁.grows (enlisted₁.add steady₁.index.toCoherent (is.grows opened.grows)) later
      steady₁.index.toCoherent coherent₃
  · refine visits₂.add steady₂.index.toCoherent is₂ new left.keys ?_ others
      (List.subset_append_left _ _) rfl
    rw [← unvisited]
    exact visited

end Followed

end BytecodeScan

end CodeMetrics
