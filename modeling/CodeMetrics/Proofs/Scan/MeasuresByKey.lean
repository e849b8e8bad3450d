import CodeMetrics.Proofs.Measure.Depth
import CodeMetrics.Proofs.Scan.DistinctClasses
import CodeMetrics.Proofs.Scan.Finish

/-!
# Measures by key

The measures of a run are computed from handles: they number the elements in the order in which they
were registered.  Here each measure is described by keys.

* The response set and the cohesion of a class are those of the class alone, whatever was scanned
  before it and whatever handle it has.
* The depth of inheritance is the same in two runs whose recorded superclasses correspond
  (`Inheritance.depth_eq`), and the number of children is counted over the classes.
* The couplings count the keys on the other side of the exported edges.
-/

namespace CodeMetrics

open Std (ExtTreeMap)

/-! ## Response sets -/

/-- The method that a mention adds to the response set. -/
def Mention.responds : Mention → Option String
  | .method key => some key
  | .reference u =>
    match u.reference with
    | .call _ => some u.reference.target
    | .access _ => none

theorem respond_eq (methods : List String) (m : Mention) :
    respond methods m = (m.responds.map methods.insert).getD methods := by
  cases m with
  | method key => rfl
  | reference u =>
      rw [respond, Mention.responds]
      cases u.reference <;> rfl

/-- The response set has what it started with, and whatever some mention adds.  The order of the
mentions does not matter. -/
theorem mem_foldl_respond {methods : List String} {ms : List Mention} {key : String} :
    key ∈ ms.foldl respond methods ↔ key ∈ methods ∨ ∃ m ∈ ms, m.responds = some key := by
  induction ms generalizing methods with
  | nil => simp
  | cons m rest ih =>
      rw [List.foldl_cons, ih, respond_eq]
      simp only [List.mem_cons, exists_eq_or_imp]
      cases m.responds with
      | none => simp
      | some method =>
          rw [Option.map_some, Option.getD_some, List.mem_insert_iff, Option.some.injEq,
            eq_comm (a := key), or_assoc, or_left_comm]

/-- A response set has no repetitions, so its length counts methods. -/
theorem nodup_foldl_respond {methods : List String} (nodup : methods.Nodup) (ms : List Mention) :
    (ms.foldl respond methods).Nodup := by
  induction ms generalizing methods with
  | nil => exact nodup
  | cons m rest ih =>
      refine ih ?_
      rw [respond_eq]
      cases m.responds with
      | none => exact nodup
      | some method => exact nodup.insert

namespace ClassFacts

variable {c : ClassFacts}

theorem method_mem_mentionsIn {methods : List Method} {m : Method} (listed : m ∈ methods)
    (seen : List (String × UInt32)) : .method (c.methodKey m) ∈ c.mentionsIn seen methods := by
  induction methods generalizing seen with
  | nil => cases listed
  | cons first rest ih =>
      rw [mentionsIn, List.mem_append]
      rcases List.mem_cons.mp listed with rfl | later
      · exact .inl List.mem_cons_self
      · exact .inr (ih later _)

/-- Methods of the class that were known before add nothing to its response set. -/
theorem response_eq {methods : List String} (nodup : methods.Nodup)
    (own : methods ⊆ c.methods.map c.methodKey) : c.response methods [] = c.response [] [] := by
  refine List.Perm.length_eq ?_
  -- the two lists hold the same keys, each once
  rw [List.perm_ext_iff_of_nodup (nodup_foldl_respond nodup _)
    (nodup_foldl_respond List.nodup_nil _)]
  intro key
  rw [mem_foldl_respond, mem_foldl_respond]
  constructor
  · rintro (known | mentioned)
    · obtain ⟨m, listed, rfl⟩ := List.mem_map.mp (own known)
      exact .inr ⟨_, method_mem_mentionsIn listed [], rfl⟩
    · exact .inr mentioned
  · rintro (impossible | mentioned)
    · cases impossible
    · exact .inr mentioned

end ClassFacts

/-! ## Cohesion -/

namespace OpenCohesion

/-- The same graph for another handle. -/
def retype (o : OpenCohesion) (type : Handle) : OpenCohesion := { o with type := type }

theorem refer_retype (excluded : String → Bool) (o : OpenCohesion) (type : Handle)
    (methodKey : String) (r : Reference) :
    (o.retype type).refer excluded methodKey r = (o.refer excluded methodKey r).retype type := by
  cases r with
  | call call => rfl
  | access a =>
      rw [refer, refer]
      by_cases out : excluded a.name = true
      · rw [if_pos out, if_pos out]
      · rw [if_neg out, if_neg out]
        rfl

/-- The handle of the class plays no part in what a mention does to its graph. -/
theorem cohere_retype (excluded : String → Bool) (o : OpenCohesion) (type : Handle) (m : Mention) :
    cohere excluded (o.retype type) m = (cohere excluded o m).retype type := by
  cases m with
  | method key => rfl
  | reference u =>
      rw [cohere, cohere]
      by_cases own : u.reference.owner = o.key
      · rw [if_pos own, if_pos (show u.reference.owner = (o.retype type).key from own),
          refer_retype]
      · rw [if_neg own, if_neg (show ¬ u.reference.owner = (o.retype type).key from own)]

theorem foldl_cohere_retype (excluded : String → Bool) (o : OpenCohesion) (type : Handle)
    (ms : List Mention) :
    ms.foldl (cohere excluded) (o.retype type) = (ms.foldl (cohere excluded) o).retype type := by
  induction ms generalizing o with
  | nil => rfl
  | cons m rest ih => rw [List.foldl_cons, List.foldl_cons, cohere_retype, ih]

end OpenCohesion

/-- The handle of a class does not matter for its cohesion. -/
theorem ClassFacts.cohesion_eq (c : ClassFacts) (excluded : String → Bool) (type type' : Handle)
    (seen : List (String × UInt32)) :
    c.cohesion excluded type seen = c.cohesion excluded type' seen := by
  have moved : c.cohesionStart excluded type = (c.cohesionStart excluded type').retype type := rfl
  rw [cohesion, moved, OpenCohesion.foldl_cohere_retype]
  rfl

/-! ## Inheritance -/

namespace Inheritance

variable {i i' : Inheritance} {related : Handle → Handle → Prop} {h h' : Handle}

/-- Chains that correspond step by step end after the same number of hops.  The induction is on the
hops. -/
theorem endsAfter_iff
    (step : ∀ h h', related h h' → i.superclass? h = none ∧ i'.superclass? h' = none ∨
      ∃ g g', i.superclass? h = some g ∧ i'.superclass? h' = some g' ∧ related g g')
    (start : related h h') (n : Nat) :
    EndsAfter i'.superclass? h' n ↔ EndsAfter i.superclass? h n := by
  -- the two chains are walked together
  induction n generalizing h h' with
  | zero =>
      rw [endsAfter_zero, endsAfter_zero]
      rcases step h h' start with ⟨ends, ends'⟩ | ⟨g, g', above, above', -⟩
      · exact iff_of_true ends' ends
      · simp [above, above']
  | succ n ih =>
      rcases step h h' start with ⟨ends, ends'⟩ | ⟨g, g', above, above', next⟩
      · simp [EndsAfter, ascend_succ, ends, ends']
      · rw [endsAfter_succ_of_some above, endsAfter_succ_of_some above', ih next]

/-- The same depth in two runs whose superclasses correspond. -/
theorem depth_eq
    (step : ∀ h h', related h h' → i.superclass? h = none ∧ i'.superclass? h' = none ∨
      ∃ g g', i.superclass? h = some g ∧ i'.superclass? h' = some g' ∧ related g g')
    (start : related h h') : i'.depth h' = i.depth h := by
  rcases i'.depth_cases h' with ⟨n, ends, depth⟩ | ⟨repeats, depth⟩
  · rw [depth, depth_of_endsAfter ((endsAfter_iff step start n).mp ends)]
  · rcases endless_or_endsAfter i.superclass? h with endless | ⟨n, ends⟩
    · rw [depth, depth_of_endless endless]
    · exact absurd repeats.endless ((endsAfter_iff step start n).mpr ends).not_endless

end Inheritance

namespace Heirs

variable {classes classes' : List ClassFacts} {types : List Handle} {ix ix' : Index}
  {superclasses superclasses' : ExtTreeMap Handle (Option Handle)} {h h' : Handle} {key : String}

/-- The superclass of a class that was applied is the handle of the key that the class names. -/
theorem superclass?_of_mem (heirs : Heirs classes ix superclasses) {c : ClassFacts}
    (listed : c ∈ classes) (named : ix.key? h = some c.key) :
    (Inheritance.ofRecords superclasses.toList).superclass? h = c.superclass.bind ix.handle? := by
  rw [Inheritance.superclass?_ofRecords (.refl _), heirs.recorded.mpr ⟨c, listed, named, rfl⟩,
    Option.join_some]

/-- What is not the type of an applied class has no superclass. -/
theorem superclass?_of_not_mem (heirs : Heirs classes ix superclasses)
    (other : ∀ c ∈ classes, ix.key? h ≠ some c.key) :
    (Inheritance.ofRecords superclasses.toList).superclass? h = none := by
  rw [Inheritance.superclass?_ofRecords (.refl _)]
  cases recorded : superclasses[h]? with
  | none => rfl
  | some above =>
      obtain ⟨c, listed, named, -⟩ := heirs.recorded.mp recorded
      exact absurd named (other c listed)

/-- The record of one class. -/
def entry (ix : Index) (c : ClassFacts) : Handle × Option Handle :=
  ((ix.handle? c.key).getD ⟨0⟩, c.superclass.bind ix.handle?)

/-- The record of a class belongs to the handle of its key. -/
theorem entry_eq_iff (coherent : ix.Coherent) (enlisted : Enlisted classes types ix)
    {c : ClassFacts} (listed : c ∈ classes) {above : Option Handle} :
    entry ix c = (h, above) ↔ ix.key? h = some c.key ∧ above = c.superclass.bind ix.handle? := by
  obtain ⟨g, type⟩ := enlisted.typed listed
  have known := coherent.handle?_iff.mpr type.1
  rw [entry, known, Option.getD_some, Prod.mk.injEq, eq_comm (b := above), ← coherent.handle?_iff,
    known, Option.some.injEq]

/-- There is one record for each class, in some order: the map of superclasses is sorted by handles,
the classes are not. -/
theorem toList_perm (heirs : Heirs classes ix superclasses) (coherent : ix.Coherent)
    (enlisted : Enlisted classes types ix) (distinct : (classes.map ClassFacts.key).Nodup) :
    superclasses.toList.Perm (classes.map (entry ix)) := by
  have keys : superclasses.toList.Nodup := by
    refine superclasses.distinct_keys_toList.imp ?_
    rintro a b apart rfl
    exact apart Std.ReflCmp.compare_self
  have entries : (classes.map (entry ix)).Nodup := by
    rw [List.Nodup, List.pairwise_map] at distinct ⊢
    refine distinct.imp_of_mem ?_
    intro c c' listed listed' other same
    have first := (entry_eq_iff coherent enlisted listed).mp rfl
    have second := (entry_eq_iff coherent enlisted listed').mp same.symm
    rw [first.1, Option.some.injEq] at second
    exact other second.1
  rw [List.perm_ext_iff_of_nodup keys entries]
  rintro ⟨g, above⟩
  rw [ExtTreeMap.mem_toList_iff_getElem?_eq_some, heirs.recorded, List.mem_map]
  refine exists_congr fun c => and_congr_right fun listed => ?_
  exact (entry_eq_iff coherent enlisted listed).symm

/-- The children of a type are the other classes that extend it.  So the number of children is a
matter of keys, and the same in every run with these classes. -/
theorem childCount_eq (heirs : Heirs classes ix superclasses) (coherent : ix.Coherent)
    (enlisted : Enlisted classes types ix) (distinct : (classes.map ClassFacts.key).Nodup)
    (named : ix.key? h = some key) :
    (Inheritance.ofRecords superclasses.toList).childCount h =
      classes.countP fun c => c.superclass = some key ∧ c.key ≠ key := by
  rw [Inheritance.childCount_ofRecords, (heirs.toList_perm coherent enlisted distinct).countP_eq,
    List.countP_map]
  refine List.countP_congr fun c listed => ?_
  have self : (entry ix c).1 = h ↔ c.key = key := by
    have first : ix.key? (entry ix c).1 = some c.key :=
      ((entry_eq_iff coherent enlisted listed).mp rfl).1
    constructor
    · rintro rfl
      rw [first, Option.some.injEq] at named
      exact named
    · rintro rfl
      exact coherent.key?_injective first named
  have extends_ : (entry ix c).2 = some h ↔ c.superclass = some key := by
    rw [entry, Option.bind_eq_some_iff]
    constructor
    · rintro ⟨t, superclass, known⟩
      rw [coherent.handle?_iff, named, Option.some.injEq] at known
      rw [superclass, known]
    · intro superclass
      exact ⟨key, superclass, coherent.handle?_iff.mpr named⟩
  simp only [Function.comp_apply, Bool.and_eq_true, beq_iff_eq, bne_iff_ne, ne_eq, self, extends_,
    decide_eq_true_eq]

/-- Superclasses correspond in two runs with the same classes: handles of one key have superclasses
of one key, or both have none. -/
theorem superclass?_corresponds (heirs : Heirs classes ix superclasses)
    (heirs' : Heirs classes' ix' superclasses') (coherent : ix.Coherent) (coherent' : ix'.Coherent)
    (same : ∀ c, c ∈ classes' ↔ c ∈ classes) (named : ix.key? h = some key)
    (named' : ix'.key? h' = some key) :
    (Inheritance.ofRecords superclasses.toList).superclass? h = none ∧
        (Inheritance.ofRecords superclasses'.toList).superclass? h' = none ∨
      ∃ g g', (Inheritance.ofRecords superclasses.toList).superclass? h = some g ∧
        (Inheritance.ofRecords superclasses'.toList).superclass? h' = some g' ∧
          ∃ above, ix.key? g = some above ∧ ix'.key? g' = some above := by
  by_cases member : ∃ c ∈ classes, c.key = key
  · -- the same class stands behind both handles
    obtain ⟨c, listed, rfl⟩ := member
    have listed' := (same c).mpr listed
    rw [heirs.superclass?_of_mem listed named, heirs'.superclass?_of_mem listed' named']
    cases superclass : c.superclass with
    | none => exact .inl ⟨rfl, rfl⟩
    | some above =>
        obtain ⟨g, known⟩ := heirs.known listed superclass
        obtain ⟨g', known'⟩ := heirs'.known listed' superclass
        exact .inr ⟨g, g', coherent.handle?_iff.mpr known, coherent'.handle?_iff.mpr known', above,
          known, known'⟩
  · left
    constructor
    · refine heirs.superclass?_of_not_mem fun c listed named' => member ⟨c, listed, ?_⟩
      rw [named, Option.some.injEq] at named'
      exact named'.symm
    · refine heirs'.superclass?_of_not_mem fun c listed named => member ⟨c, (same c).mp listed, ?_⟩
      rw [named', Option.some.injEq] at named
      exact named.symm

end Heirs

/-! ## Couplings -/

/-- Lists of handles that stand for the same keys have the same length, since no two handles have
the same key. -/
theorem Index.length_eq_of_keys {ix ix' : Index} (coherent : ix.Coherent) (coherent' : ix'.Coherent)
    {l l' : List Handle} (nodup : l.Nodup) (nodup' : l'.Nodup) (known : ∀ h ∈ l, ix.Knows h)
    (known' : ∀ h ∈ l', ix'.Knows h)
    (same : ∀ key, (∃ h ∈ l, ix.key? h = some key) ↔ ∃ h ∈ l', ix'.key? h = some key) :
    l.length = l'.length := by
  have keys_nodup {ix : Index} (coherent : ix.Coherent) {l : List Handle} (nodup : l.Nodup)
      (known : ∀ h ∈ l, ix.Knows h) : (l.map ix.key?).Nodup := by
    refine nodup.map_on ?_
    intro h listed g _ equal
    obtain ⟨key, named⟩ := Index.knows_iff_key?.mp (known h listed)
    exact coherent.key?_injective named (equal ▸ named)
  have unnamed {ix : Index} {l : List Handle} (known : ∀ h ∈ l, ix.Knows h) :
      none ∉ l.map ix.key? := by
    intro listed
    obtain ⟨h, member, missing⟩ := List.mem_map.mp listed
    obtain ⟨key, named⟩ := Index.knows_iff_key?.mp (known h member)
    rw [named] at missing
    cases missing
  -- without repetitions on either side, equal members are enough
  have perm : (l.map ix.key?).Perm (l'.map ix'.key?) := by
    rw [List.perm_ext_iff_of_nodup (keys_nodup coherent nodup known)
      (keys_nodup coherent' nodup' known')]
    intro name
    cases name with
    | none => exact iff_of_false (unnamed known) (unnamed known')
    | some key =>
        rw [List.mem_map, List.mem_map]
        exact same key
  simpa using perm.length_eq

namespace Graph

variable {g g' : Graph} {ix ix' : Index} {h h' : Handle} {key : String}

/-- Every edge of a sound graph can be exported. -/
theorem exists_keyed (sound : g.Sound) (founded : g.FoundedOn ix) {e : Edge}
    (listed : e ∈ g.edges.toList) :
    ∃ k ∈ g.keyedEdges ix, e.keyed? ix = some k := by
  obtain ⟨k, keyed⟩ := (founded.anchored sound).exists_keyed? listed
  exact ⟨k, List.mem_filterMap.mpr ⟨e, listed, keyed⟩, keyed⟩

/-- An end of edges, by handle, and the same end of exported edges, by key. -/
def SameEnd (handle : Edge → Handle) (key : KeyedEdge → String) : Prop :=
  ∀ {ix : Index} {e : Edge} {k : KeyedEdge},
    e.keyed? ix = some k → ix.key? (handle e) = some (key k)

theorem sameEnd_source : SameEnd Edge.source KeyedEdge.source :=
  fun keyed => (Edge.keyed?_eq_some_iff.mp keyed).1

theorem sameEnd_target : SameEnd Edge.target KeyedEdge.target :=
  fun keyed => (Edge.keyed?_eq_some_iff.mp keyed).2.1

section Neighbours

variable {near far : Edge → Handle} {nearKey farKey : KeyedEdge → String}

/-- The handles on the far side of the edges at a vertex. -/
def neighbours (near far : Edge → Handle) (g : Graph) (h : Handle) : List Handle :=
  ((g.edges.toList.filter (near · == h)).map far).eraseDups

/-- The neighbours of a vertex are the far keys of the edges at its key.  So they can be read off
the exported edges. -/
theorem exists_neighbour_iff (sound : g.Sound) (founded : g.FoundedOn ix) (coherent : ix.Coherent)
    (nearNamed : SameEnd near nearKey) (farNamed : SameEnd far farKey)
    (named : ix.key? h = some key) {other : String} :
    (∃ q ∈ g.neighbours near far h, ix.key? q = some other) ↔
      ∃ k ∈ g.keyedEdges ix, nearKey k = key ∧ farKey k = other := by
  simp only [neighbours, List.mem_eraseDups, List.mem_map, List.mem_filter, beq_iff_eq]
  constructor
  · rintro ⟨q, ⟨e, ⟨listed, rfl⟩, rfl⟩, otherNamed⟩
    obtain ⟨k, exported, keyed⟩ := exists_keyed sound founded listed
    rw [nearNamed keyed, Option.some.injEq] at named
    rw [farNamed keyed, Option.some.injEq] at otherNamed
    exact ⟨k, exported, named, otherNamed⟩
  · rintro ⟨k, exported, rfl, rfl⟩
    obtain ⟨e, listed, keyed⟩ := List.mem_filterMap.mp exported
    exact ⟨far e, ⟨e, ⟨listed, coherent.key?_injective (nearNamed keyed) named⟩, rfl⟩,
      farNamed keyed⟩

/-- Vertices of one key have equally many neighbours in graphs with the same exported edges.
Neighbours are counted by handles, and handles of different keys differ. -/
theorem length_neighbours_eq (sound : g.Sound) (sound' : g'.Sound) (founded : g.FoundedOn ix)
    (founded' : g'.FoundedOn ix') (coherent : ix.Coherent) (coherent' : ix'.Coherent)
    (nearNamed : SameEnd near nearKey) (farNamed : SameEnd far farKey)
    (named : ix.key? h = some key) (named' : ix'.key? h' = some key)
    (same : ∀ k, k ∈ g'.keyedEdges ix' ↔ k ∈ g.keyedEdges ix) :
    (g'.neighbours near far h').length = (g.neighbours near far h).length := by
  have known {g : Graph} {ix : Index} {h : Handle} (sound : g.Sound) (founded : g.FoundedOn ix) :
      ∀ q ∈ g.neighbours near far h, ix.Knows q := by
    intro q listed
    rw [neighbours, List.mem_eraseDups, List.mem_map] at listed
    obtain ⟨e, listed, rfl⟩ := listed
    obtain ⟨k, -, keyed⟩ := exists_keyed sound founded (List.mem_filter.mp listed).1
    exact .of_key? (farNamed keyed)
  refine Index.length_eq_of_keys coherent' coherent (nodup_eraseDups _) (nodup_eraseDups _)
    (known sound' founded') (known sound founded) fun other => ?_
  rw [exists_neighbour_iff sound founded coherent nearNamed farNamed named,
    exists_neighbour_iff sound' founded' coherent' nearNamed farNamed named']
  simp only [same]

end Neighbours

/-- Couplings are given by the exported edges.  Both of them are numbers of neighbours, seen from
either end. -/
theorem couplings_eq (sound : g.Sound) (sound' : g'.Sound) (founded : g.FoundedOn ix)
    (founded' : g'.FoundedOn ix') (coherent : ix.Coherent) (coherent' : ix'.Coherent)
    (named : ix.key? h = some key) (named' : ix'.key? h' = some key)
    (same : ∀ k, k ∈ g'.keyedEdges ix' ↔ k ∈ g.keyedEdges ix) :
    g'.afferent h' = g.afferent h ∧ g'.efferent h' = g.efferent h := by
  constructor
  · rw [afferent, afferent, sound.incoming_eq, sound'.incoming_eq]
    exact length_neighbours_eq sound sound' founded founded' coherent coherent' sameEnd_target
      sameEnd_source named named' same
  · rw [efferent, efferent, sound.outgoing_eq, sound'.outgoing_eq]
    exact length_neighbours_eq sound sound' founded founded' coherent coherent' sameEnd_source
      sameEnd_target named named' same

end Graph

end CodeMetrics
