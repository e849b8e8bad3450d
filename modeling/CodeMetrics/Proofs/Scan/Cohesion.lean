import CodeMetrics.Proofs.Measure.Components
import CodeMetrics.Proofs.Scan.Mentions

/-!
# The cohesion of a class

The members of a class are its fields and methods, and the fields of its own that its methods use.
Two of them belong together if one is a method that uses or calls the other.
`Analysis.cohesion_counts_components` says that the lack of cohesion is the number of connected
components of this graph, in whatever order the members are declared and met.

While a class is open, each mention adds to the nodes, the links and the calls what
`mem_nodes_cohere`, `spans_cohere` and `mem_calls_cohere` say; calls become links when the class is
left (`OpenCohesion.spans_foldl_linkCall`).
-/

namespace CodeMetrics

variable {σ : Type}

/-! ## References to own members -/

namespace Use

/-- The key of the field of the class itself that a reference uses, unless the field is excluded. -/
def ownField? (excluded : String → Bool) (owner : String) (u : Use) : Option String :=
  match u.reference with
  | .access a =>
    if a.owner = owner ∧ excluded a.name = false then some (Key.member owner a.name) else none
  | .call _ => none

/-- The key of the method of the class itself that a reference calls. -/
def ownMethod? (owner : String) (u : Use) : Option String :=
  match u.reference with
  | .access _ => none
  | .call call => if call.owner = owner then some (Key.member owner call.signature) else none

end Use

section Mentions

variable {excluded : String → Bool} {o : OpenCohesion} {m : Mention} {ms : List Mention}
  {key : String} {link : String × String}

/-- The mention is a reference from the first key to the second one, which is a member that the
function knows. -/
def Mention.Refers (member? : Use → Option String) (m : Mention) (link : String × String) : Prop :=
  ∃ u, m = .reference u ∧ u.method = link.1 ∧ member? u = some link.2

/-- The mention is that of a method, or a reference to an own field with the key at one of its
ends. -/
def Mention.Names (excluded : String → Bool) (owner : String) (m : Mention) (key : String) : Prop :=
  m = .method key ∨
    ∃ link, m.Refers (Use.ownField? excluded owner) link ∧ (key = link.1 ∨ key = link.2)

/-- A reference to a field of the class itself is a link, one to a method of its own is a call, and
there is nothing else to record. -/
theorem cohere_reference_cases (excluded : String → Bool) (o : OpenCohesion) (u : Use) :
    (∃ field, u.ownField? excluded o.key = some field ∧ u.ownMethod? o.key = none ∧
      cohere excluded o (.reference u) = { o with graph := o.graph.link u.method field }) ∨
    (∃ method, u.ownField? excluded o.key = none ∧ u.ownMethod? o.key = some method ∧
      cohere excluded o (.reference u) = { o with calls := o.calls ++ [(u.method, method)] }) ∨
    (u.ownField? excluded o.key = none ∧ u.ownMethod? o.key = none ∧
      cohere excluded o (.reference u) = o) := by
  obtain ⟨type, method, reference⟩ := u
  cases reference with
  | access a =>
      by_cases own : a.owner = o.key
      · cases part : excluded a.name with
        | true =>
            simp [Use.ownField?, Use.ownMethod?, cohere, OpenCohesion.refer, Reference.owner, own,
              part]
        | false =>
            simp [Use.ownField?, Use.ownMethod?, cohere, OpenCohesion.refer, Reference.owner,
              Reference.target, own, part]
      · simp [Use.ownField?, Use.ownMethod?, cohere, Reference.owner, own]
  | call call =>
      by_cases own : call.owner = o.key
      · simp [Use.ownField?, Use.ownMethod?, cohere, OpenCohesion.refer, Reference.owner,
          Reference.target, own]
      · simp [Use.ownField?, Use.ownMethod?, cohere, Reference.owner, own]

/-- Whatever is mentioned, the cohesion under way stays that of the class with the same key. -/
theorem key_cohere (excluded : String → Bool) (o : OpenCohesion) (m : Mention) :
    (cohere excluded o m).key = o.key := by
  cases m with
  | method key => rfl
  | reference u =>
      obtain ⟨_, -, -, next⟩ | ⟨_, -, -, next⟩ | ⟨-, -, next⟩ := cohere_reference_cases excluded o u
      all_goals rw [next]

/-- No member is taken up twice. -/
theorem nodup_nodes_cohere (nodup : o.graph.nodes.Nodup) (m : Mention) :
    (cohere excluded o m).graph.nodes.Nodup := by
  cases m with
  | method key => exact nodup.insert
  | reference u =>
      obtain ⟨_, -, -, next⟩ | ⟨_, -, -, next⟩ | ⟨-, -, next⟩ := cohere_reference_cases excluded o u
      · rw [next]
        exact CohesionGraph.nodes_link .. ▸ nodup.insert.insert
      · rwa [next]
      · rwa [next]

/-- A mention adds the member that it names, and no other: a method by its declaration, a field by
an access to it. -/
theorem mem_nodes_cohere :
    key ∈ (cohere excluded o m).graph.nodes ↔
      key ∈ o.graph.nodes ∨ m.Names excluded o.key key := by
  unfold Mention.Names Mention.Refers
  cases m with
  | method key' => simp [cohere, CohesionGraph.addNode, or_comm, eq_comm]
  | reference u =>
      obtain ⟨_, uses, -, next⟩ | ⟨_, uses, -, next⟩ | ⟨uses, -, next⟩ :=
        cohere_reference_cases excluded o u
      · simp [next, CohesionGraph.nodes_link, uses, or_comm, or_assoc]
      · simp [next, uses]
      · simp [next, uses]

/-- A reference to an own field is one pair more, unless the field is excluded. -/
theorem spans_cohere {pairs : String × String → Prop} (spans : o.graph.Spans pairs) (m : Mention) :
    (cohere excluded o m).graph.Spans fun link =>
      pairs link ∨ m.Refers (Use.ownField? excluded o.key) link := by
  unfold Mention.Refers
  cases m with
  | method key =>
      have kept : (o.graph.addNode key).Spans pairs := ⟨spans.among, spans.linked⟩
      exact kept.congr (by simp)
  | reference u =>
      obtain ⟨_, uses, -, next⟩ | ⟨_, uses, -, next⟩ | ⟨uses, -, next⟩ :=
        cohere_reference_cases excluded o u
      · rw [next]
        exact (spans.add _ _).congr (by simp [uses, eq_comm, Prod.ext_iff])
      · rw [next]
        exact spans.congr (by simp [uses])
      · rw [next]
        exact spans.congr (by simp [uses])

/-- After some mentions, the links connect what was connected before, together with the pairs of a
method and a field of its own that it accesses. -/
theorem spans_foldl_cohere {pairs : String × String → Prop} (spans : o.graph.Spans pairs)
    (ms : List Mention) :
    (ms.foldl (cohere excluded) o).graph.Spans fun link =>
      pairs link ∨ ∃ m ∈ ms, m.Refers (Use.ownField? excluded o.key) link := by
  induction ms generalizing o pairs with
  | nil => exact spans.congr (by simp)
  | cons m rest ih =>
      refine (ih (spans_cohere spans m)).congr fun link => ?_
      rw [key_cohere, or_assoc, List.exists_mem_cons_iff]

/-- Calls of own methods are noted down, to be linked when the class is left.  By then all its
methods are known. -/
theorem mem_calls_cohere :
    link ∈ (cohere excluded o m).calls ↔
      link ∈ o.calls ∨ m.Refers (Use.ownMethod? o.key) link := by
  unfold Mention.Refers
  cases m with
  | method key => simp [cohere]
  | reference u =>
      obtain ⟨_, -, calls, next⟩ | ⟨_, -, calls, next⟩ | ⟨-, calls, next⟩ :=
        cohere_reference_cases excluded o u
      · simp [next, calls]
      · simp [next, calls, eq_comm, Prod.ext_iff]
      · simp [next, calls]

/-- What each mention adds to a part of the record, all of them add. -/
theorem mem_foldl_cohere {γ : Type} (part : OpenCohesion → List γ)
    (adds : String → Mention → γ → Prop)
    (step : ∀ o m x, x ∈ part (cohere excluded o m) ↔ x ∈ part o ∨ adds o.key m x)
    (ms : List Mention) (o : OpenCohesion) (x : γ) :
    x ∈ part (ms.foldl (cohere excluded) o) ↔ x ∈ part o ∨ ∃ m ∈ ms, adds o.key m x := by
  induction ms generalizing o with
  | nil => simp
  | cons m rest ih =>
      rw [List.foldl_cons, ih, step, key_cohere, or_assoc]
      simp only [List.exists_mem_cons_iff]

/-- However much is mentioned, no member is taken up twice. -/
theorem nodup_nodes_foldl_cohere (nodup : o.graph.nodes.Nodup) (ms : List Mention) :
    (ms.foldl (cohere excluded) o).graph.nodes.Nodup := by
  induction ms generalizing o with
  | nil => exact nodup
  | cons m rest ih => exact ih (nodup_nodes_cohere nodup m)

end Mentions

/-! ## Calls -/

namespace OpenCohesion

variable {g : CohesionGraph} {call : String × String} {calls : List (String × String)}
  {pairs : String × String → Prop}

/-- A call from a node adds no node. -/
theorem nodes_linkCall (caller : call.1 ∈ g.nodes) : (linkCall g call).nodes = g.nodes := by
  rw [linkCall]
  split
  next callee =>
    have callee : call.2 ∈ g.nodes := List.contains_iff_mem.mp callee
    rw [CohesionGraph.nodes_link, List.insert_of_mem caller, List.insert_of_mem callee]
  next => rfl

/-- A call of a member links the caller to it.  A call of something that is no member links nothing.
-/
theorem spans_linkCall (spans : g.Spans pairs) (call : String × String) :
    (linkCall g call).Spans fun link => pairs link ∨ link = call ∧ call.2 ∈ g.nodes := by
  rw [linkCall]
  split
  next callee => exact (spans.add _ _).congr (by simp_all)
  next outside => exact spans.congr (by simp_all)

/-- Linking the calls adds no member, because the callers are members already. -/
theorem nodes_foldl_linkCall (callers : ∀ call ∈ calls, call.1 ∈ g.nodes) :
    (calls.foldl linkCall g).nodes = g.nodes := by
  induction calls generalizing g with
  | nil => rfl
  | cons call rest ih =>
      obtain ⟨caller, callers⟩ := List.forall_mem_cons.mp callers
      have same := nodes_linkCall caller
      exact (ih (by rwa [same])).trans same

/-- Calls from nodes to nodes are pairs in the end.  Linking a call adds no node, since its caller
is one, so the question which callees are nodes has the same answer in every round. -/
theorem spans_foldl_linkCall (spans : g.Spans pairs)
    (callers : ∀ call ∈ calls, call.1 ∈ g.nodes) :
    (calls.foldl linkCall g).Spans fun link => pairs link ∨ link ∈ calls ∧ link.2 ∈ g.nodes := by
  induction calls generalizing g pairs with
  | nil => exact spans.congr (by simp)
  | cons call rest ih =>
      obtain ⟨caller, callers⟩ := List.forall_mem_cons.mp callers
      have same := nodes_linkCall caller
      refine (ih (spans_linkCall spans call) (by rwa [same])).congr fun link => ?_
      rw [same, List.mem_cons]
      symm
      constructor
      · rintro ((old | ⟨rfl, callee⟩) | ⟨listed, callee⟩)
        · exact .inl old
        · exact .inr ⟨.inl rfl, callee⟩
        · exact .inr ⟨.inr listed, callee⟩
      · rintro (old | ⟨rfl | listed, callee⟩)
        · exact .inl (.inl old)
        · exact .inl (.inr ⟨rfl, callee⟩)
        · exact .inr ⟨listed, callee⟩

end OpenCohesion

/-! ## The graph of a class -/

/-- The names of the fields of a class that take part in its cohesion. -/
def ClassFacts.partNames (c : ClassFacts) (excluded : String → Bool) : Finset String :=
  ((c.fields.map Field.name).filter fun name => !excluded name).toFinset

namespace CohesionGraph

variable {α : Type} {g : CohesionGraph}

/-- Adding members one by one takes up none of them twice. -/
theorem nodup_foldl_addNode (nodup : g.nodes.Nodup) (key : α → String) (members : List α) :
    (members.foldl (fun g member => g.addNode (key member)) g).nodes.Nodup := by
  induction members generalizing g with
  | nil => exact nodup
  | cons member rest ih => exact ih (g := g.addNode (key member)) nodup.insert

/-- Adding members links nothing. -/
theorem links_foldl_addNode (g : CohesionGraph) (key : α → String) (members : List α) :
    (members.foldl (fun g member => g.addNode (key member)) g).links = g.links := by
  induction members generalizing g with
  | nil => rfl
  | cons member rest ih => exact ih (g.addNode (key member))

/-- The members are those of before and those that were added. -/
theorem mem_nodes_foldl_addNode {key : α → String} {members : List α} {k : String} :
    k ∈ (members.foldl (fun g member => g.addNode (key member)) g).nodes ↔
      k ∈ g.nodes ∨ k ∈ members.map key := by
  induction members generalizing g with
  | nil => simp
  | cons member rest ih =>
      rw [List.foldl_cons, ih]
      simp [addNode, or_assoc, or_left_comm]

end CohesionGraph

namespace ClassFacts

variable {config : Config} {c : ClassFacts} {type : Handle} {ms : List Mention} {key : String}
  {link : String × String}

/-- What is recorded of a class after some mentions. -/
def recorded (c : ClassFacts) (config : Config) (type : Handle) (ms : List Mention) :
    OpenCohesion :=
  ms.foldl (cohere config.excludes) (config.cohesion.enter (BytecodeScan.typeVisit c type))

/-- In the cohesion of a class no member occurs twice. -/
theorem nodup_nodes_recorded : (c.recorded config type ms).graph.nodes.Nodup :=
  nodup_nodes_foldl_cohere (CohesionGraph.nodup_foldl_addNode List.nodup_nil c.fieldKey _) ms

/-- The nodes are the fields that take part, and what is mentioned: methods, and the ends of
accesses to own fields. -/
theorem mem_nodes_recorded :
    key ∈ (c.recorded config type ms).graph.nodes ↔
      key ∈ (c.partNames config.excludes).image (Key.member c.key) ∨
        ∃ m ∈ ms, m.Names config.excludes c.key key := by
  have fields : key ∈ (config.cohesion.enter (BytecodeScan.typeVisit c type)).graph.nodes ↔
      key ∈ (c.partNames config.excludes).image (Key.member c.key) := by
    refine CohesionGraph.mem_nodes_foldl_addNode.trans ?_
    have excludes : config.cohesion.excludes = config.excludes := rfl
    have fields : (BytecodeScan.typeVisit c type).fields = c.fields := rfl
    have named : (BytecodeScan.typeVisit c type).key = c.key := rfl
    simp [partNames, and_assoc, excludes, fields, named]
  rw [← fields]
  exact mem_foldl_cohere (fun o => o.graph.nodes) (Mention.Names config.excludes)
    (fun _ _ _ => mem_nodes_cohere) ms _ key

/-- When a class is left, its links connect methods with the fields that they access, of those that
are its own and not excluded. -/
theorem spans_recorded :
    (c.recorded config type ms).graph.Spans fun link =>
      ∃ m ∈ ms, m.Refers (Use.ownField? config.excludes c.key) link := by
  have entered : (config.cohesion.enter (BytecodeScan.typeVisit c type)).graph.links = [] :=
    CohesionGraph.links_foldl_addNode {} c.fieldKey _
  have start : (config.cohesion.enter (BytecodeScan.typeVisit c type)).graph.Spans
      fun _ => False := by
    constructor
    · intro link listed
      rw [entered] at listed
      cases listed
    · exact fun _ pair => pair.elim
  exact (spans_foldl_cohere start ms).congr fun link => (or_iff_right not_false).symm

/-- When a class is left, the calls noted down are those of its own methods. -/
theorem mem_calls_recorded :
    link ∈ (c.recorded config type ms).calls ↔
      ∃ m ∈ ms, m.Refers (Use.ownMethod? c.key) link := by
  rw [recorded, mem_foldl_cohere OpenCohesion.calls
    (fun owner => Mention.Refers (Use.ownMethod? owner)) fun _ _ _ => mem_calls_cohere]
  exact or_iff_right List.not_mem_nil

end ClassFacts

namespace Analysis

variable {config : Config} {sources : List SourceFile} {artifacts : List Artifact} {a : Analysis}
  {c : ClassFacts} {type : Handle} {ms : List Mention} {u : Use} {key : String}

/-- The members of a class that take part in its cohesion: the fields that are not excluded, the
methods that were registered, and the fields of its own that its methods use. -/
def cohesionNodes (a : Analysis) (config : Config) (artifacts : List Artifact) (c : ClassFacts) :
    Finset String :=
  (c.partNames config.excludes).image (Key.member c.key) ∪ a.registeredKeys c ∪
    ((a.appliedUses artifacts c).filterMap (Use.ownField? config.excludes c.key)).toFinset

/-- Two members are adjacent if one is a method that uses or calls the other. -/
def cohesionGraph (a : Analysis) (config : Config) (artifacts : List Artifact) (c : ClassFacts) :
    SimpleGraph (a.cohesionNodes config artifacts c) :=
  SimpleGraph.fromRel fun x y => ∃ u ∈ a.appliedUses artifacts c, u.method = x.1 ∧
    (u.ownField? config.excludes c.key = some y.1 ∨ u.ownMethod? c.key = some y.1)

instance : DecidableRel (a.cohesionGraph config artifacts c).Adj := fun _ _ =>
  inferInstanceAs (Decidable (_ ∧ _))

/-- References that were applied are those of registered methods. -/
theorem method_mem_registeredKeys (listed : c ∈ accepted (artifacts.flatMap Artifact.classes))
    (used : u ∈ a.appliedUses artifacts c) : u.method ∈ a.registeredKeys c := by
  obtain ⟨used, own⟩ := mem_appliedUses.mp used
  obtain ⟨c', scanned, used⟩ := List.mem_flatMap.mp ((mem_of_mem_firstBy used).1)
  obtain ⟨c', kept, rfl⟩ := List.mem_map.mp scanned
  obtain ⟨m, declared, used⟩ := List.mem_flatMap.mp used
  obtain ⟨r, -, rfl⟩ := List.mem_map.mp used
  obtain rfl := eq_of_mem_accepted (List.mem_filter.mp kept).1 listed own
  exact List.mem_toFinset.mpr (List.mem_map_of_mem declared)

/-- Every method with an applied reference is a member of the graph of its class. -/
theorem method_mem_cohesionNodes (listed : c ∈ accepted (artifacts.flatMap Artifact.classes))
    (used : u ∈ a.appliedUses artifacts c) : u.method ∈ a.cohesionNodes config artifacts c :=
  Finset.mem_union_left _ (Finset.mem_union_right _ (method_mem_registeredKeys listed used))

/-- Every own field that is accessed, and not excluded, is a member of the graph of its class, also
if it was never declared. -/
theorem field_mem_cohesionNodes (used : u ∈ a.appliedUses artifacts c)
    (field : u.ownField? config.excludes c.key = some key) :
    key ∈ a.cohesionNodes config artifacts c :=
  Finset.mem_union_right _ (List.mem_toFinset.mpr (List.mem_filterMap.mpr ⟨u, used, field⟩))

section Recorded

variable (cover : Mention.Cover a.index (artifacts.flatMap Artifact.classes) c ms)
include cover

/-- A pair is mentioned exactly if one of the references that were applied to the class stands for
it. -/
theorem exists_refers_iff {member? : Use → Option String} {link : String × String} :
    (∃ m ∈ ms, m.Refers member? link) ↔
      ∃ u ∈ a.appliedUses artifacts c, u.method = link.1 ∧ member? u = some link.2 := by
  simp only [mem_appliedUses, ← cover.reference_iff]
  constructor
  · rintro ⟨_, listed, u, rfl, link⟩
    exact ⟨u, listed, link⟩
  · rintro ⟨u, listed, link⟩
    exact ⟨_, listed, u, rfl, link⟩

variable (listed : c ∈ accepted (artifacts.flatMap Artifact.classes))
include listed

/-- The nodes are the members: the methods that were registered for the class, its own fields but
for the excluded ones, and the fields that it accesses. -/
theorem mem_nodes_iff :
    key ∈ (c.recorded config type ms).graph.nodes ↔ key ∈ a.cohesionNodes config artifacts c := by
  -- a reference adds its method, too, but only registered methods have references that are applied
  have named : (∃ m ∈ ms, m.Names config.excludes c.key key) ↔ key ∈ a.registeredKeys c ∨
      ∃ u ∈ a.appliedUses artifacts c, u.ownField? config.excludes c.key = some key := by
    constructor
    · rintro ⟨m, mentioned, rfl | ⟨link, refers, ends⟩⟩
      · exact .inl (List.mem_toFinset.mpr (cover.method_iff.mp mentioned))
      · obtain ⟨u, used, method, field⟩ := (exists_refers_iff cover).mp ⟨m, mentioned, refers⟩
        rcases ends with rfl | rfl
        · exact .inl (method ▸ method_mem_registeredKeys listed used)
        · exact .inr ⟨u, used, field⟩
    · rintro (registered | ⟨u, used, field⟩)
      · exact ⟨_, cover.method_iff.mpr (List.mem_toFinset.mp registered), .inl rfl⟩
      · have mentioned : .reference u ∈ ms := cover.reference_iff.mpr (mem_appliedUses.mp used)
        exact ⟨_, mentioned, .inr ⟨(u.method, key), ⟨u, rfl, rfl, field⟩, .inr rfl⟩⟩
  rw [ClassFacts.mem_nodes_recorded, named]
  simp only [cohesionNodes, Finset.mem_union, List.mem_toFinset, List.mem_filterMap, or_assoc]

/-- Calls come from nodes. -/
theorem caller_mem_nodes {call : String × String}
    (kept : call ∈ (c.recorded config type ms).calls) :
    call.1 ∈ (c.recorded config type ms).graph.nodes := by
  rw [ClassFacts.mem_calls_recorded, exists_refers_iff cover] at kept
  obtain ⟨u, used, method, -⟩ := kept
  rw [mem_nodes_iff cover listed, ← method]
  exact method_mem_cohesionNodes listed used

/-- The pairs are the references to members, made by a method of the class to one of its own fields
or methods. -/
theorem spans_complete :
    (c.recorded config type ms).complete.Spans fun link =>
      link.2 ∈ a.cohesionNodes config artifacts c ∧
        ∃ u ∈ a.appliedUses artifacts c, u.method = link.1 ∧
          (u.ownField? config.excludes c.key = some link.2 ∨ u.ownMethod? c.key = some link.2) := by
  have callers : ∀ call ∈ (c.recorded config type ms).calls,
      call.1 ∈ (c.recorded config type ms).graph.nodes :=
    fun _ kept => caller_mem_nodes cover listed kept
  refine (OpenCohesion.spans_foldl_linkCall ClassFacts.spans_recorded callers).congr fun link => ?_
  rw [ClassFacts.mem_calls_recorded, exists_refers_iff cover, exists_refers_iff cover,
    mem_nodes_iff cover listed]
  constructor
  · rintro ⟨member, u, used, method, field | callee⟩
    · exact .inl ⟨u, used, method, field⟩
    · exact .inr ⟨⟨u, used, method, callee⟩, member⟩
  · rintro (⟨u, used, method, field⟩ | ⟨⟨u, used, method, callee⟩, member⟩)
    · exact ⟨field_mem_cohesionNodes used field, u, used, method, .inl field⟩
    · exact ⟨member, u, used, method, .inr callee⟩

/-- The record of a class draws the graph of its members: the nodes are the vertices, and the links
join what is adjacent, directly or through others. -/
theorem draws_cohesionGraph :
    (c.recorded config type ms).complete.Draws (a.cohesionGraph config artifacts c) where
  nodup := by
    rw [OpenCohesion.complete,
      OpenCohesion.nodes_foldl_linkCall fun _ kept => caller_mem_nodes cover listed kept]
    exact ClassFacts.nodup_nodes_recorded
  mem_iff key := by
    rw [OpenCohesion.complete,
      OpenCohesion.nodes_foldl_linkCall fun _ kept => caller_mem_nodes cover listed kept]
    exact (mem_nodes_iff cover listed).symm
  ends link drawn := by
    obtain ⟨member, u, used, method, -⟩ := (spans_complete cover listed).among link drawn
    exact ⟨method ▸ method_mem_cohesionNodes listed used, member⟩
  adj_iff x y := by
    rw [cohesionGraph, SimpleGraph.fromRel_adj]
    refine and_congr_right fun other => ?_
    -- both ends are members, so it does not matter that calls of other methods are dropped
    rw [(spans_complete cover listed).linked_iff (fun same => other (Subtype.ext same)),
      and_iff_right x.2, and_iff_right y.2]

end Recorded

/-- Every member can be reached from a method that was registered or from a field of the class. -/
theorem exists_reachable (listed : c ∈ accepted (artifacts.flatMap Artifact.classes))
    (v : a.cohesionNodes config artifacts c) :
    ∃ u : a.cohesionNodes config artifacts c,
      u.1 ∈ (c.partNames config.excludes).image (Key.member c.key) ∪ a.registeredKeys c ∧
        (a.cohesionGraph config artifacts c).Reachable u v := by
  obtain ⟨key, member⟩ := v
  rcases Finset.mem_union.mp member with own | used
  · exact ⟨⟨key, member⟩, own, .rfl⟩
  · obtain ⟨u, used, field⟩ := List.mem_filterMap.mp (List.mem_toFinset.mp used)
    refine ⟨⟨u.method, method_mem_cohesionNodes listed used⟩,
      Finset.mem_union_right _ (method_mem_registeredKeys listed used), ?_⟩
    by_cases same : u.method = key
    · subst same
      exact .rfl
    · refine SimpleGraph.Adj.reachable ?_
      rw [cohesionGraph, SimpleGraph.fromRel_adj]
      exact ⟨fun equal => same (congrArg Subtype.val equal), .inl ⟨u, used, rfl, .inl field⟩⟩

/-- There are at most as many components as methods and fields. -/
theorem card_components_le (listed : c ∈ accepted (artifacts.flatMap Artifact.classes)) :
    Nat.card (a.cohesionGraph config artifacts c).ConnectedComponent ≤
      (a.registeredKeys c).card + (c.partNames config.excludes).card := by
  calc Nat.card (a.cohesionGraph config artifacts c).ConnectedComponent
    _ ≤ ((c.partNames config.excludes).image (Key.member c.key) ∪ a.registeredKeys c).card :=
      CohesionGraph.card_connectedComponent_le _ (exists_reachable listed)
    _ ≤ ((c.partNames config.excludes).image (Key.member c.key)).card + (a.registeredKeys c).card :=
      Finset.card_union_le _ _
    _ ≤ (c.partNames config.excludes).card + (a.registeredKeys c).card :=
      Nat.add_le_add_right Finset.card_image_le _
    _ = (a.registeredKeys c).card + (c.partNames config.excludes).card := Nat.add_comm _ _

/-- **The lack of cohesion counts connected components.**  Without external visitors every run gives
an analysis.  In it, the measure of every class that was accepted and is a type is the number of
connected components of its members: its fields that are not excluded, its methods that were
registered, and the fields of its own that these use.  Two members are adjacent if one of them is a
method that uses the other as a field of its class or calls it as a method of its class.  There is
no component without members; otherwise there is one at least, and at most as many as there are
methods and fields. -/
theorem cohesion_counts_components (config : Config) (sources : List SourceFile)
    (artifacts : List Artifact) :
    ∃ a : Analysis,
      run config ([] : List (External σ × Subscription)) sources artifacts = .ok a ∧
      ∀ c ∈ accepted (artifacts.flatMap Artifact.classes),
        (a.find? c.key).map Element.kind = some .type →
        a.metric? c.key .lcom4 = some (.ofCount
          (Nat.card (a.cohesionGraph config artifacts c).ConnectedComponent)) ∧
        (a.cohesionNodes config artifacts c = ∅ →
          Nat.card (a.cohesionGraph config artifacts c).ConnectedComponent = 0) ∧
        (a.cohesionNodes config artifacts c ≠ ∅ →
          1 ≤ Nat.card (a.cohesionGraph config artifacts c).ConnectedComponent ∧
          Nat.card (a.cohesionGraph config artifacts c).ConnectedComponent ≤
            (a.registeredKeys c).card + (c.partNames config.excludes).card) := by
  obtain ⟨⟨⟩, s, sourced, -⟩ := sources_accounted (σ := σ) config sources
  obtain ⟨a, ran, sound, -, measured⟩ := class_measures sourced artifacts
  refine ⟨a, ran, fun c listed typed => ⟨?_, fun empty => ?_, fun members => ⟨?_, ?_⟩⟩⟩
  · obtain ⟨type, named, is⟩ := Index.has_of_find? sound.toCoherent typed
    obtain ⟨ms, cover, rates⟩ :=
      measured listed ((Index.registered?_eq_some_iff sound.toCoherent).mpr ⟨named, is⟩)
    have draws : (c.recorded config type ms).complete.Draws (a.cohesionGraph config artifacts c) :=
      draws_cohesionGraph cover listed
    rw [metric?_eq sound.toCoherent named, draws.card_connectedComponent]
    exact rates.cohesion
  · have : IsEmpty (a.cohesionNodes config artifacts c) := Finset.isEmpty_coe_sort.mpr empty
    exact Nat.card_of_isEmpty
  · have : Nonempty (a.cohesionNodes config artifacts c) :=
      Finset.nonempty_coe_sort.mpr (Finset.nonempty_iff_ne_empty.mpr members)
    exact Nat.card_pos
  · exact card_components_le listed

/-! ### A class in four parts -/

/-- A class with a field that is used and one that is not, an own field that is not declared, a call
of a method that comes later, and two methods that share an excluded field only. -/
def scattered : ClassFacts :=
  { key := "p/A", superclass := none, interfaces := [], fields := [⟨"x"⟩, ⟨"y"⟩, ⟨"log"⟩]
    methods :=
      [⟨"m()V", [.access ⟨1, "p/A", "x"⟩, .access ⟨2, "p/A", "log"⟩]⟩,
        ⟨"n()V", [.call ⟨1, "p/A", "o()V"⟩, .access ⟨2, "p/A", "log"⟩]⟩,
        ⟨"o()V", [.call ⟨1, "p/A", "inherited()V"⟩]⟩,
        ⟨"q()V", [.access ⟨1, "p/A", "z"⟩, .access ⟨1, "p/A", "x"⟩, .access ⟨2, "p/B", "x"⟩]⟩] }

/-- A class without members. -/
def blank : ClassFacts :=
  { key := "p/B", superclass := none, interfaces := [], fields := [⟨"log"⟩], methods := [] }

def scatteredJar : Artifact := ⟨"one.jar", [blank, scattered], none⟩

/-- The members of the class, and what links them. -/
def scatteredGraph : CohesionGraph where
  nodes := ["p/A#x", "p/A#y", "p/A#z", "p/A#m()V", "p/A#n()V", "p/A#o()V", "p/A#q()V"]
  links := [("p/A#m()V", "p/A#x"), ("p/A#n()V", "p/A#o()V"), ("p/A#q()V", "p/A#z")]

theorem cohesion_counts_components_scattered :
    ∃ a : Analysis,
      run (Config.exclude {} ["log"]) ([] : List (External Unit × Subscription)) [] [scatteredJar] =
        .ok a ∧
      scattered ∈ accepted ([scatteredJar].flatMap Artifact.classes) ∧
      (a.find? scattered.key).map Element.kind = some .type ∧
      a.metric? scattered.key .lcom4 = some (.ofCount 4) ∧
      a.metric? blank.key .lcom4 = some (.ofCount 0) := by
  have listed : scattered ∈ accepted ([scatteredJar].flatMap Artifact.classes) := by decide
  have listed' : blank ∈ accepted ([scatteredJar].flatMap Artifact.classes) := by decide
  obtain ⟨a, ran, counts⟩ := cohesion_counts_components (σ := Unit) (Config.exclude {} ["log"]) []
    [scatteredJar]
  have evaluated : (run (Config.exclude {} ["log"]) ([] : List (External Unit × Subscription)) []
      [scatteredJar]).toOption.map (fun a => decide (
        (a.find? scattered.key).map Element.kind = some .type ∧
        (a.find? blank.key).map Element.kind = some .type ∧
        scatteredGraph.Draws
          (a.cohesionGraph (Config.exclude {} ["log"]) [scatteredJar] scattered) ∧
        a.cohesionNodes (Config.exclude {} ["log"]) [scatteredJar] blank = ∅)) = some true := by
    decide +kernel
  rw [ran] at evaluated
  obtain ⟨typed, typed', draws, empty⟩ := of_decide_eq_true (Option.some.inj evaluated)
  have first := (counts scattered listed typed).1
  have second := counts blank listed' typed'
  rw [draws.card_connectedComponent] at first
  rw [second.2.1 empty] at second
  exact ⟨a, ran, listed, typed, first, second.1⟩

end Analysis

end CodeMetrics
