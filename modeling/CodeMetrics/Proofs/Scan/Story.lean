import CodeMetrics.Proofs.Scan.Refusals

/-!
# The story of a run

What a run tells its visitors is fixed by its inputs and by the index at its end.  The story of the
two scans is computed from them, without following any scan:

* a declaration is told of if its key has its kind in the end, and is a type or a method;
* of the classes of one key the first is told of, if the key is a type in the end, with those of its
  methods that are methods in the end;
* of the references of one method at one site the first is told of.

Types do not nest in the bytecode scan, and none is met twice (`Analysis.filter_story`).
-/

namespace CodeMetrics

/-! ## The story -/

namespace Index

variable {ix : Index} {key : String} {kind : Kind} {h : Handle}

/-- The element of a key, if it has this kind. -/
def registered? (ix : Index) (key : String) (kind : Kind) : Option Handle :=
  ((ix.find? key).filter (·.kind == kind)).map Element.handle

theorem registered?_eq_some_iff (coherent : ix.Coherent) :
    ix.registered? key kind = some h ↔ ix.key? h = some key ∧ ix.kind? h = some kind := by
  simp only [registered?, Option.map_eq_some_iff, Option.filter_eq_some_iff,
    coherent.find?_eq_some_iff, beq_iff_eq]
  constructor
  · rintro ⟨e, ⟨⟨found, rfl⟩, rfl⟩, rfl⟩
    exact ⟨key?_of_get? found, kind?_of_get? found⟩
  · rintro ⟨named, is⟩
    obtain ⟨e, found⟩ := knows_iff_get?.mp (.of_key? named)
    obtain rfl := coherent.handle_eq found
    rw [key?_of_get? found, Option.some.injEq] at named
    rw [kind?_of_get? found, Option.some.injEq] at is
    exact ⟨e, ⟨⟨found, named⟩, is⟩, rfl⟩

theorem registered?_eq_none (coherent : ix.Coherent) (unknown : ¬ ix.Has key kind) :
    ix.registered? key kind = none := by
  cases found : ix.registered? key kind with
  | none => rfl
  | some h => exact absurd ⟨h, (registered?_eq_some_iff coherent).mp found⟩ unknown

end Index

/-- The declarations of a file; there are none if it cannot be parsed. -/
def SourceFile.declarations (file : SourceFile) : List Declaration :=
  match file.result with
  | .ok declarations => declarations
  | .error _ => []

namespace Event

/-- The event without the owner of a method that was declared in a source file.  Which owner is
known depends on the moment. -/
def unowned : Event → Event
  | .method visit =>
    match visit.phase with
    | .source => .method { visit with owner := none }
    | .bytecode => .method visit
  | e => e

/-- Where the reference of an event stands: the key of its method, and its site. -/
def place? : Event → Option (String × UInt32)
  | .reference visit => some (visit.methodKey, visit.reference.site)
  | _ => none

/-- The events without those about a reference at a place that was met before. -/
def withoutRepeats (seen : List (String × UInt32)) : List Event → List Event
  | [] => []
  | e :: rest =>
    match e.place? with
    | none => e :: withoutRepeats seen rest
    | some place =>
      if place ∈ seen then withoutRepeats seen rest
      else e :: withoutRepeats (place :: seen) rest

end Event

/-- The story of a declaration. -/
def SourceScan.declarationEvents (ix : Index) (d : Declaration) : List Event :=
  match d.kind with
  | .type => (ix.registered? d.key .type).toList.map fun h =>
    .type { phase := .source, element := h, key := d.key }
  | .method => (ix.registered? d.key .method).toList.map fun h =>
    .method
      { phase := .source
        element := h
        key := d.key
        owner := none
        signature := (Key.name? d.key).getD d.key }
  | _ => []

namespace BytecodeScan

/-- The event of a method of a class. -/
def methodEvent (c : ClassFacts) (type : Handle) (m : Method) (h : Handle) : Event :=
  .method
    { phase := .bytecode
      element := h
      key := c.methodKey m
      owner := some type
      signature := m.signature }

/-- The event of a reference in a method of a class. -/
def referenceEvent (c : ClassFacts) (type : Handle) (methodKey : String) (r : Reference) : Event :=
  .reference { element := type, typeKey := c.key, methodKey := methodKey, reference := r }

/-- The story of a method, with its references. -/
def memberEvents (ix : Index) (c : ClassFacts) (type : Handle) (m : Method) : List Event :=
  match ix.registered? (c.methodKey m) .method with
  | some h => methodEvent c type m h :: m.body.map (referenceEvent c type (c.methodKey m))
  | none => []

/-- The story of a class, with all its references. -/
def classEvents (ix : Index) (c : ClassFacts) : List Event :=
  match ix.registered? c.key .type with
  | some type =>
    .type (typeVisit c type) ::
      (c.methods.flatMap (memberEvents ix c type) ++ [.leaveType (typeVisit c type)])
  | none => []

end BytecodeScan

namespace Analysis

/-- What visitors are told in the source scan. -/
def sourceStory (ix : Index) (sources : List SourceFile) : List Event :=
  (sources.flatMap SourceFile.declarations).flatMap (SourceScan.declarationEvents ix) ++
    [.endScan .source]

/-- What visitors are told in the bytecode scan. -/
def bytecodeStory (ix : Index) (artifacts : List Artifact) : List Event :=
  Event.withoutRepeats []
      ((accepted (artifacts.flatMap Artifact.classes)).flatMap (BytecodeScan.classEvents ix)) ++
    [.endScan .bytecode]

/-- What visitors are told in a run that ends with this index. -/
def story (ix : Index) (sources : List SourceFile) (artifacts : List Artifact) : List Event :=
  sourceStory ix sources ++ bytecodeStory ix artifacts

end Analysis

/-! ## References that are repeated -/

namespace Event

variable {seen seen' : List (String × UInt32)} {e : Event} {l l' : List Event}

theorem withoutRepeats_congr (same : ∀ place, place ∈ seen ↔ place ∈ seen') (l : List Event) :
    withoutRepeats seen l = withoutRepeats seen' l := by
  induction l generalizing seen seen' with
  | nil => rfl
  | cons e rest ih =>
      have same_cons (p : String × UInt32) : ∀ place, place ∈ p :: seen ↔ place ∈ p :: seen' := by
        intro place
        rw [List.mem_cons, List.mem_cons, same place]
      simp only [withoutRepeats, same, ih same, ih (same_cons _)]

/-- A walk over two lists drops from the second what was met in the first.  Only references have
places, so all other events stay. -/
theorem withoutRepeats_append (seen : List (String × UInt32)) (l l' : List Event) :
    withoutRepeats seen (l ++ l') =
      withoutRepeats seen l ++ withoutRepeats (l.filterMap place? ++ seen) l' := by
  induction l generalizing seen with
  | nil => rfl
  | cons e rest ih =>
      rw [List.cons_append, withoutRepeats, withoutRepeats]
      cases placed : e.place? with
      | none =>
          rw [List.filterMap_cons_none placed, ih]
          rfl
      | some place =>
          rw [List.filterMap_cons_some placed]
          dsimp only
          split
          · next known =>
              rw [ih]
              congr 1
              refine withoutRepeats_congr (fun p => ?_) l'
              simp only [List.cons_append, List.mem_cons, List.mem_append]
              -- the place is listed twice now, which makes no difference
              refine (or_iff_right_of_imp fun same => ?_).symm
              rw [same]
              exact .inr known
          · rw [ih, List.cons_append]
            congr 2
            refine withoutRepeats_congr (fun p => ?_) l'
            simp only [List.cons_append, List.mem_cons, List.mem_append]
            exact or_left_comm

theorem withoutRepeats_sublist (seen : List (String × UInt32)) (l : List Event) :
    (withoutRepeats seen l).Sublist l := by
  induction l generalizing seen with
  | nil => exact .slnil
  | cons e rest ih =>
      rw [withoutRepeats]
      split
      · exact (ih seen).cons_cons e
      · split
        · exact (ih seen).cons e
        · exact (ih _).cons_cons e

/-- Nothing but references is dropped. -/
theorem filter_withoutRepeats {test : Event → Bool} (plain : ∀ e, test e = true → e.place? = none)
    (seen : List (String × UInt32)) (l : List Event) :
    (withoutRepeats seen l).filter test = l.filter test := by
  induction l generalizing seen with
  | nil => rfl
  | cons e rest ih =>
      rw [withoutRepeats]
      cases placed : e.place? with
      | none => rw [List.filter_cons, List.filter_cons, ih]
      | some place =>
          have dropped : ¬ test e = true := fun passes => by
            rw [plain e passes] at placed
            cases placed
          dsimp only
          split
          · rw [List.filter_cons_of_neg dropped, ih]
          · rw [List.filter_cons_of_neg dropped, List.filter_cons_of_neg dropped, ih]

theorem unowned_of_bytecode (bytecode : e.phase = .bytecode) : e.unowned = e := by
  cases e with
  | method visit =>
      have phase : visit.phase = .bytecode := bytecode
      rw [unowned, phase]
  | _ => rfl

end Event

/-! ## Classes and phases -/

/-- What the story of a class is made of: the type when it is entered and when it is left, and
between them the methods that are registered, each with its references. -/
theorem BytecodeScan.mem_classEvents_iff {ix : Index} {c : ClassFacts} {e : Event} :
    e ∈ classEvents ix c ↔ ∃ type, ix.registered? c.key .type = some type ∧
      (e = .type (typeVisit c type) ∨ e = .leaveType (typeVisit c type) ∨
        ∃ m ∈ c.methods, ∃ h, ix.registered? (c.methodKey m) .method = some h ∧
          (e = methodEvent c type m h ∨
            ∃ r ∈ m.body, e = referenceEvent c type (c.methodKey m) r)) := by
  have member {type : Handle} {m : Method} : e ∈ memberEvents ix c type m ↔
      ∃ h, ix.registered? (c.methodKey m) .method = some h ∧
        (e = methodEvent c type m h ∨ ∃ r ∈ m.body, e = referenceEvent c type (c.methodKey m) r) := by
    unfold memberEvents
    cases ix.registered? (c.methodKey m) .method with
    | none => simp
    | some h => simp [eq_comm]
  unfold classEvents
  cases ix.registered? c.key .type with
  | none => simp
  | some type =>
      simp only [List.mem_cons, List.mem_append, List.mem_flatMap, member, List.not_mem_nil,
        or_false, Option.some.injEq, exists_eq_left']
      rw [or_comm (b := e = .leaveType (typeVisit c type))]

/-- One more class is accepted if there is none of its key yet. -/
theorem accepted_concat (cs : List ClassFacts) (c : ClassFacts) :
    accepted (cs ++ [c]) = accepted cs ++ if c.key ∈ cs.map ClassFacts.key then [] else [c] := by
  rw [accepted, accepted, firstBy_append, List.append_nil]
  rfl

namespace Analysis

theorem phase_of_mem_sourceStory {ix : Index} {sources : List SourceFile} {e : Event}
    (listed : e ∈ sourceStory ix sources) : e.phase = .source := by
  rcases List.mem_append.mp listed with declared | last
  · obtain ⟨d, -, told⟩ := List.mem_flatMap.mp declared
    unfold SourceScan.declarationEvents at told
    split at told
    · obtain ⟨h, -, rfl⟩ := List.mem_map.mp told
      rfl
    · obtain ⟨h, -, rfl⟩ := List.mem_map.mp told
      rfl
    · cases told
  · rw [List.mem_singleton.mp last]
    rfl

theorem phase_of_mem_bytecodeStory {ix : Index} {artifacts : List Artifact} {e : Event}
    (listed : e ∈ bytecodeStory ix artifacts) : e.phase = .bytecode := by
  rcases List.mem_append.mp listed with told | last
  · obtain ⟨c, -, told⟩ := List.mem_flatMap.mp ((Event.withoutRepeats_sublist _ _).mem told)
    obtain ⟨type, -, rfl | rfl | ⟨m, -, h, -, rfl | ⟨r, -, rfl⟩⟩⟩ :=
      BytecodeScan.mem_classEvents_iff.mp told <;> rfl
  · rw [List.mem_singleton.mp last]
    rfl

end Analysis

/-! ## Types that are entered and left -/

/-- Whether a type is entered or left in the bytecode scan. -/
def Event.bounds : Event → Bool
  | .type visit | .leaveType visit => visit.phase == .bytecode
  | _ => false

namespace Event

variable {e : Event}

theorem bytecode_of_bounds (bounds : e.bounds = true) : e.phase = .bytecode := by
  cases e with
  | type visit => exact beq_iff_eq.mp bounds
  | leaveType visit => exact beq_iff_eq.mp bounds
  | _ => cases bounds

theorem place?_of_bounds (bounds : e.bounds = true) : e.place? = none := by
  cases e with
  | reference visit => cases bounds
  | _ => rfl

theorem bounds_unowned (e : Event) : e.unowned.bounds = e.bounds := by
  cases e with
  | method visit =>
      rw [unowned]
      split <;> rfl
  | _ => rfl

/-- Events that differ in owners only enter and leave the same types. -/
theorem filter_bounds_unowned (l : List Event) :
    (l.map unowned).filter bounds = l.filter bounds := by
  have same : bounds ∘ unowned = bounds := funext bounds_unowned
  rw [List.filter_map, same]
  refine (List.map_congr_left fun e listed => ?_).trans (List.map_id _)
  exact unowned_of_bytecode (bytecode_of_bounds (List.mem_filter.mp listed).2)

end Event

namespace Analysis

/-- The visit of a class whose key is a type. -/
def visit? (ix : Index) (c : ClassFacts) : Option TypeVisit :=
  (ix.registered? c.key .type).map (BytecodeScan.typeVisit c)

/-- The types that are entered and left in the bytecode scan, in order. -/
def visits (ix : Index) (artifacts : List Artifact) : List TypeVisit :=
  (accepted (artifacts.flatMap Artifact.classes)).flatMap fun c => (visit? ix c).toList

/-- A class that is visited has one event that enters its type and one that leaves it.  Any other
class has neither. -/
theorem filter_classEvents (ix : Index) (c : ClassFacts) :
    (BytecodeScan.classEvents ix c).filter Event.bounds =
      (visit? ix c).toList.flatMap fun v => [.type v, .leaveType v] := by
  unfold BytecodeScan.classEvents visit?
  cases ix.registered? c.key .type with
  | none => rfl
  | some type =>
      have members : (c.methods.flatMap (BytecodeScan.memberEvents ix c type)).filter
          Event.bounds = [] := by
        refine List.filter_eq_nil_iff.mpr fun e listed => ?_
        obtain ⟨m, -, told⟩ := List.mem_flatMap.mp listed
        unfold BytecodeScan.memberEvents at told
        split at told
        · rcases List.mem_cons.mp told with rfl | refers
          · exact Bool.false_ne_true
          · obtain ⟨r, -, rfl⟩ := List.mem_map.mp refers
            exact Bool.false_ne_true
        · cases told
      have enter : (Event.type (BytecodeScan.typeVisit c type)).bounds = true := rfl
      have leave : (Event.leaveType (BytecodeScan.typeVisit c type)).bounds = true := rfl
      rw [List.filter_cons_of_pos enter, List.filter_append, members,
        List.filter_cons_of_pos leave]
      rfl

/-- Every type is left before the next one is entered.  The events between are about its members. -/
theorem filter_story (ix : Index) (sources : List SourceFile) (artifacts : List Artifact) :
    (story ix sources artifacts).filter Event.bounds =
      (visits ix artifacts).flatMap fun v => [.type v, .leaveType v] := by
  have source : (sourceStory ix sources).filter Event.bounds = [] := by
    refine List.filter_eq_nil_iff.mpr fun e listed bounds => ?_
    have phase := phase_of_mem_sourceStory listed
    rw [Event.bytecode_of_bounds bounds] at phase
    cases phase
  have last : [Event.endScan .bytecode].filter Event.bounds = [] := rfl
  rw [story, List.filter_append, source, List.nil_append, bytecodeStory, List.filter_append, last,
    List.append_nil, Event.filter_withoutRepeats fun e => Event.place?_of_bounds,
    List.filter_flatMap, visits, List.flatMap_assoc]
  exact List.flatMap_congr fun c _ => filter_classEvents ix c

/-- No key is visited twice, because only the first class of a key is accepted. -/
theorem nodup_key_visits (ix : Index) (artifacts : List Artifact) :
    ((visits ix artifacts).map TypeVisit.key).Nodup := by
  suffices keys : ∀ cs : List ClassFacts,
      ((cs.flatMap fun c => (visit? ix c).toList).map TypeVisit.key).Sublist
        (cs.map ClassFacts.key) from
    (keys _).nodup (nodup_map_firstBy ClassFacts.key [] _)
  intro cs
  induction cs with
  | nil => exact .slnil
  | cons c rest ih =>
      rw [List.flatMap_cons, List.map_append, List.map_cons]
      unfold visit?
      cases ix.registered? c.key .type with
      | none => exact ih.cons c.key
      | some type => exact ih.cons_cons c.key

/-- No type is visited twice: different keys have different handles. -/
theorem nodup_element_visits {ix : Index} (coherent : ix.Coherent) (artifacts : List Artifact) :
    ((visits ix artifacts).map TypeVisit.element).Nodup := by
  have keyed : ((visits ix artifacts).map TypeVisit.element).map ix.key? =
      ((visits ix artifacts).map TypeVisit.key).map some := by
    rw [List.map_map, List.map_map]
    refine List.map_congr_left fun v listed => ?_
    obtain ⟨c, -, visited⟩ := List.mem_flatMap.mp listed
    obtain ⟨type, found, rfl⟩ := Option.map_eq_some_iff.mp (Option.mem_toList.mp visited)
    exact ((Index.registered?_eq_some_iff coherent).mp found).1
  refine List.Nodup.of_map ix.key? ?_
  rw [keyed]
  exact (nodup_key_visits ix artifacts).map (Option.some_injective String)

end Analysis

end CodeMetrics
