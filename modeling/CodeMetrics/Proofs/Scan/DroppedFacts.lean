import CodeMetrics.Proofs.Measure.NewMember
import CodeMetrics.Proofs.Scan.MeasuresByKey
import CodeMetrics.Proofs.Scan.RefusedFacts

/-!
# Facts that are dropped and still measured

A field that is refused and a reference that is refused are dropped: the report says so, and the
index and the graph do not have them.  But the visitors are told of a reference before it is tried,
and of the fields as the class has them.  So a dropped field still counts as a member of its class,
and the target of a dropped call still responds.

`BytecodeScan.dropped_facts_measured` compares the measures of a class with those of the class
without the dropped fact.
-/

namespace CodeMetrics

/-! ## What is said about methods -/

namespace Mention

/-- Every reference is one of a method that was mentioned. -/
def Grounded (ms : List Mention) : Prop := ∀ u, .reference u ∈ ms → .method u.method ∈ ms

/-- The methods that call a member of the class. -/
def callers (owner member : String) (ms : List Mention) : List String :=
  ms.filterMap fun
    | .method _ => none
    | .reference u => if u.ownMethod? owner = some member then some u.method else none

theorem mem_callers {owner member x : String} {ms : List Mention} :
    x ∈ callers owner member ms ↔ ∃ m ∈ ms, m.Refers (Use.ownMethod? owner) (x, member) := by
  rw [callers, List.mem_filterMap]
  refine exists_congr fun m => and_congr_right fun _ => ?_
  cases m with
  | method key => simp [Refers]
  | reference u => simp [Refers, and_comm]

theorem Grounded.concat {ms : List Mention} (grounded : Grounded ms) {m : Mention}
    (known : ∀ u, m = .reference u → .method u.method ∈ ms) : Grounded (ms ++ [m]) := by
  intro u listed
  rcases List.mem_append.mp listed with old | last
  · exact List.mem_append_left _ (grounded u old)
  · exact List.mem_append_left _ (known u (List.mem_singleton.mp last).symm)

end Mention

namespace ClassScan

variable {p : ClassScan} {c : ClassFacts}

/-- References that follow their method keep the mentions grounded. -/
theorem grounded_foldl_refer (grounded : Mention.Grounded p.mentions) (method : Handle)
    {key : String} (said : .method key ∈ p.mentions) (rs : List Reference) :
    Mention.Grounded (rs.foldl (refer c method key) p).mentions := by
  induction rs generalizing p with
  | nil => exact grounded
  | cons r rest ih =>
      rw [List.foldl_cons]
      unfold refer
      split
      · exact ih grounded said
      · refine ih (grounded.concat ?_) (List.mem_append_left _ said)
        rintro u same
        obtain rfl := Mention.reference.inj same
        exact said

theorem grounded_declare (grounded : Mention.Grounded p.mentions) (c : ClassFacts) (m : Method) :
    Mention.Grounded (p.declare c m).mentions := by
  unfold declare
  split
  · exact grounded
  · next h f _ =>
      refine grounded_foldl_refer (p := p.announce c m f) (grounded.concat ?_) h ?_ m.body
      · rintro u ⟨⟩
      · exact List.mem_append_right _ (List.mem_singleton_self _)

/-- No reference is mentioned before the method that it belongs to. -/
theorem grounded_of (f : Findings) (sites : List (Handle × UInt32)) (c : ClassFacts)
    (type : Handle) : Mention.Grounded (of f sites c type).mentions :=
  List.foldlRecOn c.methods (declare c) (motive := fun p => Mention.Grounded p.mentions)
    (fun _ listed => (List.not_mem_nil listed).elim) fun _ grounded m _ =>
      grounded_declare grounded c m

end ClassScan

/-! ## The members of a class -/

namespace ClassFacts

variable {config : Config} {c : ClassFacts} {type : Handle} {ms : List Mention} {key : String}
  {link : String × String}

/-- The first is a method that uses the second as a field of the class, or that calls it as a method
of the class, where it is a member. -/
def Belong (c : ClassFacts) (config : Config) (type : Handle) (ms : List Mention)
    (link : String × String) : Prop :=
  (∃ m ∈ ms, m.Refers (Use.ownField? config.excludes c.key) link) ∨
    (∃ m ∈ ms, m.Refers (Use.ownMethod? c.key) link) ∧
      link.2 ∈ (c.recorded config type ms).complete.nodes

section Grounded

variable (grounded : Mention.Grounded ms)
include grounded

/-- Calls come from members. -/
theorem caller_mem_recorded {call : String × String}
    (kept : call ∈ (c.recorded config type ms).calls) :
    call.1 ∈ (c.recorded config type ms).graph.nodes := by
  obtain ⟨m, listed, u, rfl, method, -⟩ := mem_calls_recorded.mp kept
  exact mem_nodes_recorded.mpr (.inr ⟨_, grounded u listed, .inl (congrArg _ method)⟩)

theorem nodes_complete :
    (c.recorded config type ms).complete.nodes = (c.recorded config type ms).graph.nodes :=
  OpenCohesion.nodes_foldl_linkCall fun _ kept => caller_mem_recorded grounded kept

/-- The pairs are the references to own fields, and those to own methods that are members. -/
theorem spans_complete : (c.recorded config type ms).complete.Spans (c.Belong config type ms) := by
  have callers : ∀ call ∈ (c.recorded config type ms).calls,
      call.1 ∈ (c.recorded config type ms).graph.nodes :=
    fun _ kept => caller_mem_recorded grounded kept
  refine (OpenCohesion.spans_foldl_linkCall spans_recorded callers).congr fun link => ?_
  rw [Belong, nodes_complete grounded, mem_calls_recorded]

/-- The completed graph of a class has its links between nodes only. -/
theorem drawn_complete : (c.recorded config type ms).complete.Drawn where
  nodup := by
    rw [nodes_complete grounded]
    exact nodup_nodes_recorded
  ends link drawn := by
    rcases (spans_complete grounded).among link drawn with ⟨m, listed, refers⟩ | ⟨calls, callee⟩
    · rw [nodes_complete grounded, mem_nodes_recorded, mem_nodes_recorded]
      exact ⟨.inr ⟨m, listed, .inr ⟨link, refers, .inl rfl⟩⟩,
        .inr ⟨m, listed, .inr ⟨link, refers, .inr rfl⟩⟩⟩
    · have kept : link ∈ (c.recorded config type ms).calls := mem_calls_recorded.mpr calls
      refine ⟨?_, callee⟩
      rw [nodes_complete grounded]
      exact caller_mem_recorded grounded kept

end Grounded

/-- The fields that take part, by their keys. -/
theorem mem_image_partNames (excluded : String → Bool) :
    key ∈ (c.partNames excluded).image (Key.member c.key) ↔
      ∃ field ∈ c.fields, excluded field.name = false ∧ key = c.fieldKey field := by
  rw [Finset.mem_image]
  constructor
  · rintro ⟨name, listed, rfl⟩
    obtain ⟨named, part⟩ := List.mem_filter.mp (List.mem_toFinset.mp listed)
    obtain ⟨field, declared, rfl⟩ := List.mem_map.mp named
    exact ⟨field, declared, by simpa using part, rfl⟩
  · rintro ⟨field, declared, part, rfl⟩
    refine ⟨field.name, List.mem_toFinset.mpr (List.mem_filter.mpr ⟨?_, ?_⟩), rfl⟩
    · exact List.mem_map_of_mem declared
    · rw [part]
      rfl

section Field

variable {before after : List Field} {field : Field}
  (fields : c.fields = before ++ field :: after)
include fields

/-- One field more is one member more, unless it is excluded. -/
theorem mem_nodes_with_field :
    key ∈ (c.recorded config type ms).graph.nodes ↔
      key ∈ ({ c with fields := before ++ after }.recorded config type ms).graph.nodes ∨
        config.excludes field.name = false ∧ key = c.fieldKey field := by
  rw [mem_nodes_recorded, mem_nodes_recorded, mem_image_partNames, mem_image_partNames, fields]
  simp only [List.mem_append, List.mem_cons, or_and_right, exists_or, exists_eq_left, fieldKey]
  simp only [or_assoc, or_comm, or_left_comm]

/-- A call by the name of the field is a pair then. -/
theorem belong_with_field (grounded : Mention.Grounded ms) :
    c.Belong config type ms link ↔
      { c with fields := before ++ after }.Belong config type ms link ∨
        config.excludes field.name = false ∧ link.1 ∈ Mention.callers c.key (c.fieldKey field) ms ∧
          link.2 = c.fieldKey field := by
  rw [Belong, Belong, nodes_complete grounded, nodes_complete grounded,
    mem_nodes_with_field fields, Mention.mem_callers]
  obtain ⟨caller, callee⟩ := link
  constructor
  · rintro (uses | ⟨calls, member | ⟨part, rfl⟩⟩)
    · exact .inl (.inl uses)
    · exact .inl (.inr ⟨calls, member⟩)
    · exact .inr ⟨part, calls, rfl⟩
  · rintro ((uses | ⟨calls, member⟩) | ⟨part, calls, rfl⟩)
    · exact .inl uses
    · exact .inr ⟨calls, .inl member⟩
    · exact .inr ⟨calls, .inr ⟨part, rfl⟩⟩

/-- A field that is excluded, or that is a member anyway, makes no difference to the number of
components, because it adds no node. -/
theorem length_components_of_superfluous (grounded : Mention.Grounded ms)
    (superfluous : config.excludes field.name = true ∨ c.fieldKey field ∈
      ({ c with fields := before ++ after }.recorded config type ms).complete.nodes) :
    (c.recorded config type ms).complete.components.length =
      ({ c with fields := before ++ after }.recorded config type ms).complete.components.length :=
    by
  refine CohesionGraph.length_components_of_same (drawn_complete grounded)
    (drawn_complete grounded) (spans_complete grounded)
    ((spans_complete grounded).congr fun link => ?_) fun key => ?_
  · rw [belong_with_field fields grounded]
    refine (or_iff_left_of_imp ?_).symm
    rintro ⟨part, calls, same⟩
    rcases superfluous with out | member
    · rw [part] at out
      cases out
    · obtain ⟨caller, callee⟩ := link
      obtain rfl : callee = c.fieldKey field := same
      exact .inr ⟨Mention.mem_callers.mp calls, member⟩
  · rw [nodes_complete grounded, nodes_complete grounded, mem_nodes_with_field fields]
    refine or_iff_left_of_imp ?_
    rintro ⟨part, rfl⟩
    rcases superfluous with out | member
    · rw [part] at out
      cases out
    · rwa [nodes_complete grounded] at member

/-- Any other field is one component with all those that have a caller of it: the field is a new
node, and the calls by its name join it to the others. -/
theorem length_components_with_field (grounded : Mention.Grounded ms)
    (part : config.excludes field.name = false)
    (new : c.fieldKey field ∉
      ({ c with fields := before ++ after }.recorded config type ms).complete.nodes) :
    (c.recorded config type ms).complete.components.length +
        (({ c with fields := before ++ after }.recorded config type ms).complete.met
          (Mention.callers c.key (c.fieldKey field) ms)).length =
      ({ c with fields := before ++ after }.recorded config type ms).complete.components.length + 1
    := by
  refine CohesionGraph.length_components_of_more (drawn_complete grounded)
    (drawn_complete grounded) new (fun key => ?_) (fun caller calls => ?_)
    (spans_complete grounded) ((spans_complete grounded).congr fun link => ?_)
  · rw [nodes_complete grounded, nodes_complete grounded, mem_nodes_with_field fields,
      and_iff_right part]
  · obtain ⟨m, listed, u, rfl, method, -⟩ := Mention.mem_callers.mp calls
    rw [nodes_complete grounded, mem_nodes_recorded]
    exact .inr ⟨_, grounded u listed, .inl (congrArg _ method)⟩
  · rw [belong_with_field fields grounded, and_iff_right part]

end Field

end ClassFacts

theorem key_foldl_cohere (excluded : String → Bool) (o : OpenCohesion) (ms : List Mention) :
    (ms.foldl (cohere excluded) o).key = o.key := by
  induction ms generalizing o with
  | nil => rfl
  | cons m rest ih => rw [List.foldl_cons, ih, key_cohere]

/-- A reference to another class says nothing about the members. -/
theorem ClassFacts.recorded_without_reference {config : Config} {c : ClassFacts} {type : Handle}
    {u : Use} (other : u.reference.owner ≠ c.key) (said more : List Mention) :
    c.recorded config type (said ++ [.reference u] ++ more) =
      c.recorded config type (said ++ more) := by
  have key := key_foldl_cohere config.excludes
    (config.cohesion.enter (BytecodeScan.typeVisit c type)) said
  unfold recorded
  rw [List.foldl_append, List.foldl_append, List.foldl_cons, List.foldl_nil, List.foldl_append,
    cohere, if_neg fun own => other (own.trans key)]

/-! ## Response sets -/

section Responses

variable {methods : List String} {said more : List Mention} {m : Mention} {callee : String}

/-- With one more mention, a response set has at most the key more that this mention adds. -/
theorem mem_foldl_respond_with {key : String} :
    key ∈ (said ++ [m] ++ more).foldl respond methods ↔
      key ∈ (said ++ more).foldl respond methods ∨ m.responds = some key := by
  simp only [mem_foldl_respond, List.mem_append, List.mem_singleton, or_and_right, exists_or,
    exists_eq_left]
  simp only [or_assoc, or_comm, or_left_comm]

/-- A mention adds nothing if what it responds with is there. -/
theorem length_foldl_respond_of_mem (nodup : methods.Nodup)
    (known : ∀ callee, m.responds = some callee → callee ∈ (said ++ more).foldl respond methods) :
    ((said ++ [m] ++ more).foldl respond methods).length =
      ((said ++ more).foldl respond methods).length := by
  have same : ((said ++ [m] ++ more).foldl respond methods).toFinset =
      ((said ++ more).foldl respond methods).toFinset := by
    ext key
    rw [List.mem_toFinset, List.mem_toFinset, mem_foldl_respond_with]
    exact or_iff_left_of_imp (known key)
  rw [← List.toFinset_card_of_nodup (nodup_foldl_respond nodup _), same,
    List.toFinset_card_of_nodup (nodup_foldl_respond nodup _)]

/-- A mention of a callee that is not there adds it. -/
theorem length_foldl_respond_of_new (nodup : methods.Nodup) (responds : m.responds = some callee)
    (new : callee ∉ (said ++ more).foldl respond methods) :
    ((said ++ [m] ++ more).foldl respond methods).length =
      ((said ++ more).foldl respond methods).length + 1 := by
  have more_by_one : ((said ++ [m] ++ more).foldl respond methods).toFinset =
      insert callee ((said ++ more).foldl respond methods).toFinset := by
    ext key
    rw [Finset.mem_insert, List.mem_toFinset, List.mem_toFinset, mem_foldl_respond_with, responds,
      Option.some.injEq, or_comm, eq_comm]
  rw [← List.toFinset_card_of_nodup (nodup_foldl_respond nodup _), more_by_one,
    Finset.card_insert_of_notMem (by rwa [List.mem_toFinset]),
    List.toFinset_card_of_nodup (nodup_foldl_respond nodup _)]

/-- A call adds its target, unless that is there, be it mentioned before or afterwards.  Other
references add nothing. -/
theorem length_foldl_respond (nodup : methods.Nodup) (said more : List Mention) (u : Use) :
    ((said ++ [Mention.reference u] ++ more).foldl respond methods).length =
      if u.reference.edgeKind = .call ∧
        u.reference.target ∉ (said ++ more).foldl respond methods
      then ((said ++ more).foldl respond methods).length + 1
      else ((said ++ more).foldl respond methods).length := by
  obtain ⟨type, method, reference⟩ := u
  cases reference with
  | access a =>
      rw [if_neg (by rintro ⟨⟨⟩, -⟩)]
      refine length_foldl_respond_of_mem nodup ?_
      rintro callee ⟨⟩
  | call call =>
      split
      next fresh => exact length_foldl_respond_of_new nodup rfl fresh.2
      next known =>
        refine length_foldl_respond_of_mem nodup ?_
        rintro callee ⟨⟩
        by_contra fresh
        exact known ⟨rfl, fresh⟩

end Responses

/-! ## Measures with and without a fact -/

namespace ClassScan

variable {f : Findings} {c : ClassFacts} {type : Handle} {sites : List (Handle × UInt32)}

/-- The methods of the class that call a member of it. -/
def callers (f : Findings) (sites : List (Handle × UInt32)) (c : ClassFacts) (type : Handle)
    (member : String) : List String :=
  Mention.callers c.key member (of f sites c type).mentions

theorem nodup_known (f : Findings) (c : ClassFacts) (type : Handle) : (known f c type).Nodup :=
  nodup_eraseDups _

/-- A field that is refused makes no difference to the response set. -/
theorem responses_without_field (sound : f.toModel.Sound) (isType : f.index.IsType type c.key)
    {before after : List Field} {field : Field} (fields : c.fields = before ++ field :: after)
    (refuses : (of f sites c type).findings.index.Refuses (c.fieldKey field) .field) :
    responses f sites { c with fields := before ++ after } type = responses f sites c type := by
  obtain ⟨index, mentions⟩ := of_without_field sound isType fields refuses
  unfold responses known
  rw [index, mentions]

end ClassScan

/-- The issues that were recorded since an earlier session. -/
def Session.issuesSince {σ : Type} (t s : Session σ) : List Issue :=
  t.findings.report.issues.toList.drop s.findings.report.issues.size

namespace BytecodeScan

open Scanning ClassScan

variable {σ : Type} {s t : Session σ} {path : String} {progress : Progress} {c : ClassFacts}
  {type : Handle} {f : Findings}

/-- The class is accepted and scanned to its end, and has these measures then. -/
def ScansTo (path : String) (progress : Progress) (c : ClassFacts) (type : Handle)
    (s t : Session σ) (rfc lcom4 : Nat) : Prop :=
  (∃ sites, (scanClass path progress c).runOn s = (.ok ⟨sites, type :: progress.types⟩, t)) ∧
    Measured t.findings.index type rfc lcom4

/-- The scan of a class that is accepted, and what its issues say about the facts of the class. -/
theorem scansTo (alone : Private s) (sound : s.findings.toModel.Sound) (path : String)
    (accepted : s.findings.resolveType c.key = (.ok type, f)) (new : type ∉ progress.types) :
    ∃ t, ScansTo path progress c type s t (responses f progress.sites c type).length
        (members f progress.sites c type).components.length ∧
      (of f progress.sites c type).findings.Remeasures t.findings ∧
      ∀ i ∈ t.issuesSince s, i.Due (of f progress.sites c type).findings.index := by
  obtain ⟨_, t, run, rfl, remeasures, measured⟩ := scanClass_measures alone sound path accepted new
  refine ⟨t, ⟨⟨_, run⟩, measured⟩, remeasures, fun i recorded => ?_⟩
  have tacit := s.findings.resolveType_tacit c.key
  rw [accepted] at tacit
  have isType := Findings.isType_of_resolveType sound accepted
  refine (vouched_of (tacit.evolves.sound sound) isType progress.sites).due ?_
  rw [Session.issuesSince, remeasures.report, ← tacit.report] at recorded
  exact recorded

/-- **A dropped fact is measured all the same.**  A class is accepted in a session without external
visitors.

* If one of its fields is dropped with a conflict, the response set has the size that it has without
  the field.  So has the lack of cohesion if the field is excluded or is a member anyway, be it a
  method or a field that is used.  Otherwise the field is one component with all those that have a
  caller of it.
* If a reference of one of its methods is dropped, and was not passed over for another one at its
  site, the lack of cohesion is what it is without the reference.  The response set is larger by one
  if the reference is a call, and its target is not there anyway. -/
theorem dropped_facts_measured (alone : Private s)
    (reached : ({} : Model).Evolves s.findings.toModel) (path : String)
    (accepted : s.findings.resolveType c.key = (.ok type, f)) (new : type ∉ progress.types) :
    ∃ t rfc lcom4, ScansTo path progress c type s t rfc lcom4 ∧
      (∀ before field after existing, c.fields = before ++ field :: after →
        .kindConflict .bytecode (c.fieldKey field) existing .field ∈ t.issuesSince s →
        let c' := { c with fields := before ++ after }
        let rest := members f progress.sites c' type
        let callers := callers f progress.sites c' type (c.fieldKey field)
        ∃ t', ScansTo path progress c' type s t' rfc rest.components.length ∧
          (f.config.excludes field.name = true ∨ c.fieldKey field ∈ rest.nodes →
            lcom4 = rest.components.length) ∧
          (f.config.excludes field.name = false → c.fieldKey field ∉ rest.nodes →
            lcom4 + (rest.met callers).length = rest.components.length + 1)) ∧
      (∀ early signature before r after late h message,
        c.methods = early ++ ⟨signature, before ++ r :: after⟩ :: late →
        t.findings.index.key? h = some (Key.member c.key signature) →
        t.findings.index.kind? h = some .method →
        (h, r.site) ∉ progress.sites →
        (∀ m ∈ early ++ ⟨signature, before ++ after⟩ :: late, m.signature = signature →
          ∀ r' ∈ m.body, r'.site ≠ r.site) →
        .rejected .bytecode r.owner message ∈ t.issuesSince s →
        let c' := { c with methods := early ++ ⟨signature, before ++ after⟩ :: late }
        let rest := responses f progress.sites c' type
        ∃ t', ScansTo path progress c' type s t' rest.length lcom4 ∧
          rfc = if r.edgeKind = .call ∧ r.target ∉ rest then rest.length + 1 else rest.length) := by
  have sound : s.findings.toModel.Sound := reached.sound .empty
  have isType := Findings.isType_of_resolveType sound accepted
  have sound' : f.toModel.Sound := by
    have tacit := s.findings.resolveType_tacit c.key
    rw [accepted] at tacit
    exact tacit.evolves.sound sound
  obtain ⟨t, scans, remeasures, due⟩ := scansTo alone sound path accepted new
  refine ⟨t, _, _, scans, ?fields, ?references⟩
  case fields =>
    intro before field after existing fields dropped c' rest callers
    have refuses := due _ dropped
    obtain ⟨-, mentions⟩ := of_without_field sound' isType fields refuses
    obtain ⟨t', scans', -⟩ := scansTo (c := c') alone sound path accepted new
    rw [responses_without_field sound' isType fields refuses] at scans'
    have grounded := grounded_of f progress.sites c type
    have rest_eq : rest =
        (c'.recorded f.config type (of f progress.sites c type).mentions).complete := by
      rw [← mentions]
      rfl
    have callers_eq : callers =
        Mention.callers c.key (c.fieldKey field) (of f progress.sites c type).mentions := by
      rw [← mentions]
      rfl
    refine ⟨t', scans', fun superfluous => ?_, fun part fresh => ?_⟩
    · rw [rest_eq] at superfluous ⊢
      exact ClassFacts.length_components_of_superfluous fields grounded superfluous
    · rw [rest_eq] at fresh ⊢
      rw [callers_eq]
      exact ClassFacts.length_components_with_field fields grounded part fresh
  case references =>
    intro early signature before r after late h message methods named is unseen apart dropped c'
      rest
    have refuses := due _ dropped
    rw [remeasures.keys] at named
    rw [remeasures.kinds] at is
    obtain ⟨said, more, all, without⟩ :=
      of_without_reference sound' isType methods named is unseen apart refuses
    obtain ⟨t', scans', -⟩ := scansTo (c := c') alone sound path accepted new
    -- the dropped reference goes to another class
    have other : r.owner ≠ c.key := by
      intro own
      have vouched := vouched_of sound' isType progress.sites
      have admits : (of f progress.sites c type).findings.index.Admits c.key .external :=
        ⟨.type, ⟨type, vouched.isType⟩, .inr ⟨rfl, rfl⟩⟩
      exact admits.not_refuses vouched.sound.index.toCoherent (own ▸ refuses)
    have members_eq : members f progress.sites c' type = members f progress.sites c type := by
      unfold members
      rw [all, without, ClassFacts.recorded_without_reference other]
      rfl
    have rest_eq : rest = (said ++ more).foldl respond (known f c type) := by
      rw [← without]
      rfl
    rw [members_eq] at scans'
    refine ⟨t', scans', ?_⟩
    rw [responses, all]
    simp only [rest_eq]
    exact length_foldl_respond (nodup_known f c type) said more
      ⟨c.key, Key.member c.key signature, r⟩

/-- A session in which a method has the key of a field, and a package stands where a type is
expected. -/
def contested : Session Unit :=
  let m := ({} : Model).applyAll [.register "A" .type none, .register "A#x" .method (some "A"),
    .register "p" .package (some "project")]
  { findings := { index := m.index, graph := m.graph }
    roster := own {} ({} : Config).cohesion }

/-- The class with the field, and with a call of a function of the package. -/
def contestedClass : ClassFacts :=
  ⟨"A", none, [], [⟨"x"⟩], [⟨"m()V", [.call ⟨0, "p", "f()V"⟩]⟩]⟩

theorem dropped_facts_measured_contested :
    ∃ t t₁ t₂ : Session Unit,
      ScansTo "A.class" {} contestedClass ⟨0⟩ contested t 3 2 ∧
      t.issuesSince contested = [.kindConflict .bytecode "A#x" .method .field,
        .rejected .bytecode "p" "p is a package, not a type"] ∧
      ScansTo "A.class" {} { contestedClass with fields := [] } ⟨0⟩ contested t₁ 3 1 ∧
      ScansTo "A.class" {} { contestedClass with methods := [⟨"m()V", []⟩] } ⟨0⟩ contested
        t₂ 2 2 := by
  have alone : Private contested := ⟨_, _, rfl, rfl⟩
  have reached : ({} : Model).Evolves contested.findings.toModel :=
    ⟨_, by decide +kernel, rfl, rfl⟩
  have resolved : (contested.findings.resolveType contestedClass.key).1 = .ok ⟨0⟩ := by
    decide +kernel
  have accepted : contested.findings.resolveType contestedClass.key =
    (.ok ⟨0⟩, (contested.findings.resolveType contestedClass.key).2) := Prod.ext resolved rfl
  have new : (⟨0⟩ : Handle) ∉ ({} : Progress).types := List.not_mem_nil
  obtain ⟨t, rfc, lcom4, scans, fields, references⟩ :=
    dropped_facts_measured alone reached "A.class" accepted new
  obtain ⟨⟨sites, run⟩, -⟩ := id scans
  have ended : ((scanClass "A.class" {} contestedClass).runOn contested).2 = t := by rw [run]
  have issues : ((scanClass "A.class" {} contestedClass).runOn contested).2.issuesSince contested =
      [.kindConflict .bytecode "A#x" .method .field,
        .rejected .bytecode "p" "p is a package, not a type"] := by decide +kernel
  have named : ((scanClass "A.class" {} contestedClass).runOn contested).2.findings.index.key? ⟨4⟩ =
      some "A#m()V" := by decide +kernel
  have is : ((scanClass "A.class" {} contestedClass).runOn contested).2.findings.index.kind? ⟨4⟩ =
      some .method := by decide +kernel
  rw [ended] at issues named is
  obtain ⟨t₁, scans₁, -, counted₁⟩ := fields [] ⟨"x"⟩ [] .method rfl (by
    rw [issues]
    exact List.mem_cons_self)
  obtain ⟨t₂, scans₂, counted₂⟩ := references [] "m()V" [] (.call ⟨0, "p", "f()V"⟩) [] [] ⟨4⟩
    "p is a package, not a type" rfl named is List.not_mem_nil (by simp) (by
      rw [issues]
      exact List.mem_cons_of_mem _ List.mem_cons_self)
  let f := (contested.findings.resolveType contestedClass.key).2
  have members₁ : members f [] { contestedClass with fields := [] } ⟨0⟩ = ⟨["A#m()V"], []⟩ := by
    decide +kernel
  have callers₁ : callers f [] { contestedClass with fields := [] } ⟨0⟩ "A#x" = [] := by
    decide +kernel
  have responses₂ : responses f [] { contestedClass with methods := [⟨"m()V", []⟩] } ⟨0⟩ =
      ["A#m()V", "A#x"] := by decide +kernel
  have counted : lcom4 + ((members f [] { contestedClass with fields := [] } ⟨0⟩).met
      (callers f [] { contestedClass with fields := [] } ⟨0⟩ "A#x")).length =
      (members f [] { contestedClass with fields := [] } ⟨0⟩).components.length + 1 :=
    counted₁ (by decide +kernel) (by decide +kernel)
  rw [members₁, callers₁] at counted
  obtain rfl : lcom4 = 2 := counted
  have components : (members f [] { contestedClass with fields := [] } ⟨0⟩).components.length = 1 :=
    congrArg (fun g => g.components.length) members₁
  have size : (responses f [] { contestedClass with methods := [⟨"m()V", []⟩] } ⟨0⟩).length = 2 :=
    congrArg List.length responses₂
  have outside :
      "p#f()V" ∉ responses f [] { contestedClass with methods := [⟨"m()V", []⟩] } ⟨0⟩ := by
    rw [responses₂]
    decide
  obtain rfl : rfc = 3 :=
    counted₂.trans ((if_pos ⟨rfl, outside⟩).trans (congrArg (· + 1) size))
  have measured₁ : ScansTo "A.class" {} { contestedClass with fields := [] } ⟨0⟩ contested t₁ 3
      (members f [] { contestedClass with fields := [] } ⟨0⟩).components.length := scans₁
  have measured₂ : ScansTo "A.class" {} { contestedClass with methods := [⟨"m()V", []⟩] } ⟨0⟩
      contested t₂ (responses f [] { contestedClass with methods := [⟨"m()V", []⟩] } ⟨0⟩).length
      2 := scans₂
  rw [components] at measured₁
  rw [size] at measured₂
  exact ⟨t, t₁, t₂, scans, issues, measured₁, measured₂⟩

end BytecodeScan

end CodeMetrics
