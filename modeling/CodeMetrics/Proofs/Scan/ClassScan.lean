import CodeMetrics.Proofs.Scan.Cohesion

/-!
# One class

What the scan of one class does if there are only the visitors of the analysis itself.  They decide
nothing, so it can be said without them: `ClassScan` has the findings, the sites and what was said
about the class so far, and a reference or a method is a step of it.  The scan follows these steps
(`ClassScan.Follows`), and in the end it attaches the sizes that they lead to
(`BytecodeScan.scanClass_measures`).
-/

namespace CodeMetrics

/-- The scan of a class so far. -/
structure ClassScan where
  findings : Findings
  sites : List (Handle × UInt32)
  /-- What was said about the class, in order. -/
  mentions : List Mention := []

namespace ClassScan

/-- One more reference of a method, unless an earlier one has the same site. -/
def refer (c : ClassFacts) (method : Handle) (key : String) (p : ClassScan) (r : Reference) :
    ClassScan :=
  if p.sites.contains (method, r.site) then p
  else
    { findings := p.findings.addReference c r
      sites := (method, r.site) :: p.sites
      mentions := p.mentions ++ [.reference ⟨c.key, key, r⟩] }

/-- One more method, which has led to these findings. -/
def announce (c : ClassFacts) (p : ClassScan) (m : Method) (f : Findings) : ClassScan :=
  { findings := f, sites := p.sites, mentions := p.mentions ++ [.method (c.methodKey m)] }

/-- One more method with its references, unless it is refused. -/
def declare (c : ClassFacts) (p : ClassScan) (m : Method) : ClassScan :=
  match p.findings.declareFact .bytecode (c.methodKey m) .method (some c.key) with
  | (none, f) => { p with findings := f }
  | (some h, f) => m.body.foldl (refer c h (c.methodKey m)) (p.announce c m f)

/-- The class is entered. -/
def enter (f : Findings) (sites : List (Handle × UInt32)) (c : ClassFacts) (type : Handle) :
    ClassScan :=
  { findings := f.openClass c type, sites := sites }

/-- The scan of a whole class. -/
def of (f : Findings) (sites : List (Handle × UInt32)) (c : ClassFacts) (type : Handle) :
    ClassScan :=
  c.methods.foldl (declare c) (enter f sites c type)

/-- The methods that respond when the class is entered: those that are known by then. -/
def known (f : Findings) (c : ClassFacts) (type : Handle) : List String :=
  (((f.openClass c type).index.members c.key .method).map Element.key).eraseDups

/-- The response set of the class. -/
def responses (f : Findings) (sites : List (Handle × UInt32)) (c : ClassFacts) (type : Handle) :
    List String :=
  (of f sites c type).mentions.foldl respond (known f c type)

/-- The members of the class and how they belong together. -/
def members (f : Findings) (sites : List (Handle × UInt32)) (c : ClassFacts) (type : Handle) :
    CohesionGraph :=
  (c.recorded f.config type (of f sites c type).mentions).complete

variable {p : ClassScan} {c : ClassFacts} {type method : Handle} {f : Findings}
  {sites : List (Handle × UInt32)} {key : String} {r : Reference}

/-- A reference at a place that was met before is passed over. -/
theorem refer_of_mem (seen : (method, r.site) ∈ p.sites) : p.refer c method key r = p :=
  if_pos (List.contains_iff_mem.mpr seen)

/-- A reference at a new place is mentioned to the visitors, counted as a dependency, and its place
is noted. -/
theorem refer_of_notMem (unseen : (method, r.site) ∉ p.sites) :
    p.refer c method key r =
      { findings := p.findings.addReference c r
        sites := (method, r.site) :: p.sites
        mentions := p.mentions ++ [.reference ⟨c.key, key, r⟩] } :=
  if_neg fun seen => unseen (List.contains_iff_mem.mp seen)

/-- A method that is refused is passed over with its body. -/
theorem declare_of_none {m : Method} (refused : p.findings.declareFact .bytecode (c.methodKey m)
    .method (some c.key) = (none, f)) : p.declare c m = { p with findings := f } := by
  rw [declare, refused]

/-- A method that is accepted is mentioned, and then its references are gone through. -/
theorem declare_of_some {m : Method} (accepted : p.findings.declareFact .bytecode (c.methodKey m)
    .method (some c.key) = (some method, f)) :
    p.declare c m = m.body.foldl (refer c method (c.methodKey m)) (p.announce c m f) := by
  rw [declare, accepted]

/-! ## What is kept -/

/-- A reference keeps the extensions and superclasses. -/
theorem refer_keeps (sound : p.findings.toModel.Sound) (c : ClassFacts) (method : Handle)
    (key : String) (r : Reference) : p.findings.Keeps (p.refer c method key r).findings := by
  unfold refer
  split
  · exact .refl _
  · exact Findings.addReference_keeps sound c r

/-- The references of a body keep the extensions and superclasses. -/
theorem foldl_refer_keeps (sound : p.findings.toModel.Sound) (c : ClassFacts) (method : Handle)
    (key : String) (rs : List Reference) :
    p.findings.Keeps (rs.foldl (refer c method key) p).findings := by
  induction rs generalizing p with
  | nil => exact .refl _
  | cons r rest ih =>
      have first := refer_keeps sound c method key r
      exact first.trans (ih (first.evolves.sound sound))

/-- A method with its body keeps the extensions and superclasses. -/
theorem declare_keeps (sound : p.findings.toModel.Sound) (c : ClassFacts) (m : Method) :
    p.findings.Keeps (p.declare c m).findings := by
  have declared := Findings.declareMember_keeps sound (c.methodKey m) (.inr rfl) (some c.key)
  rcases answer : p.findings.declareFact .bytecode (c.methodKey m) .method (some c.key) with
    ⟨_ | h, f⟩
  · rw [answer] at declared
    rw [declare_of_none answer]
    exact declared
  · rw [answer] at declared
    rw [declare_of_some answer]
    have sound' := declared.evolves.sound sound
    exact declared.trans
      (foldl_refer_keeps (p := p.announce c m f) sound' c h (c.methodKey m) m.body)

/-- The methods of a class keep the extensions and superclasses. -/
theorem foldl_declare_keeps (sound : p.findings.toModel.Sound) (c : ClassFacts)
    (ms : List Method) : p.findings.Keeps (ms.foldl (declare c) p).findings := by
  induction ms generalizing p with
  | nil => exact .refl _
  | cons m rest ih =>
      have first := declare_keeps sound c m
      exact first.trans (ih (first.evolves.sound sound))

/-- Entering a class is a history of allowed changes.  It starts with a vertex for the type, which
is known, and goes on with supertypes and fields. -/
theorem enter_evolves (sound : f.toModel.Sound) (isType : f.index.IsType type c.key)
    (sites : List (Handle × UInt32)) :
    f.toModel.Evolves (enter f sites c type).findings.toModel := by
  obtain ⟨enriches, -⟩ := Findings.openClass_inherits sound isType
  exact (Findings.entered_evolves isType).trans enriches.evolves

/-- The scan of a whole class, written out as one computation on the findings, is a history of
allowed changes. -/
theorem of_evolves (sound : f.toModel.Sound) (isType : f.index.IsType type c.key)
    (sites : List (Handle × UInt32)) :
    f.toModel.Evolves (of f sites c type).findings.toModel := by
  have entering := enter_evolves sound isType sites
  exact entering.trans (foldl_declare_keeps (entering.sound sound) c c.methods).evolves

/-! ## The scan follows -/

/-- These are attached as the measures of a class. -/
def Measured (ix : Index) (type : Handle) (rfc lcom4 : Nat) : Prop :=
  ix.measure? type Metric.rfc.name = some (.ofCount rfc) ∧
    ix.measure? type Metric.lcom4.name = some (.ofCount lcom4)

variable {σ : Type}

/-- The session is where the scan of the class is. -/
structure Follows (type : Handle) (methods : List String) (v : CohesionVisitor) (o : OpenCohesion)
    (p : ClassScan) (sites : List (Handle × UInt32)) (s : Session σ) : Prop where
  findings : s.findings = p.findings
  sites : sites = p.sites
  roster : s.roster = Scanning.own (.at type methods p.mentions) (v.at o p.mentions)

namespace Follows

open Scanning BytecodeScan

variable {methods : List String} {v : CohesionVisitor} {o : OpenCohesion} {s : Session σ}

/-- The scan follows one reference: it makes the same findings, notes the same places, and the
visitors have heard of the same mentions. -/
theorem scanReference (follows : Follows o.type methods v o p sites s) (c : ClassFacts)
    (method : Handle) (key : String) (r : Reference) :
    (BytecodeScan.scanReference c o.type method key sites r).Ends s fun sites t =>
      Follows o.type methods v o (p.refer c method key r) sites t := by
  obtain ⟨findings, rfl, roster⟩ := follows
  unfold BytecodeScan.scanReference
  by_cases seen : (method, r.site) ∈ p.sites
  · rw [if_pos seen, refer_of_mem seen]
    exact .pure ⟨findings, rfl, roster⟩
  · rw [if_neg seen, refer_of_notMem seen]
    refine (dispatch_listening roster rfl (by rintro ⟨⟩) (by rintro ⟨⟩)).bind ?_
    rintro - t ⟨same, roster'⟩
    refine .alter_bind (.pure ⟨?_, rfl, ?_⟩)
    · rw [same, findings]
    · rw [response_react_reference _ o.type _ _ rfl,
        cohesion_react_reference (c := o) _ _ rfl] at roster'
      exact roster'

/-- The scan follows the references of a body. -/
theorem scanReferences (follows : Follows o.type methods v o p sites s) (c : ClassFacts)
    (method : Handle) (key : String) (rs : List Reference) :
    (rs.foldlM (BytecodeScan.scanReference c o.type method key) sites).Ends s fun sites t =>
      Follows o.type methods v o (rs.foldl (refer c method key) p) sites t := by
  induction rs generalizing p sites s with
  | nil => exact .pure follows
  | cons r rest ih =>
      rw [List.foldlM_cons]
      exact (follows.scanReference c method key r).bind fun _ _ follows => ih follows

/-- The scan follows one method with its body: registered, told and gone through, or refused and
left out. -/
theorem scanMethod (follows : Follows o.type methods v o p sites s) (c : ClassFacts) (m : Method) :
    (BytecodeScan.scanMethod c o.type sites m).Ends s fun sites t =>
      Follows o.type methods v o (p.declare c m) sites t := by
  obtain ⟨findings, rfl, roster⟩ := follows
  unfold BytecodeScan.scanMethod ClassScan.declare
  refine .edit_bind ?_
  rw [findings]
  generalize p.findings.declareFact .bytecode (c.methodKey m) .method (some c.key) = result
  obtain ⟨_ | h, f⟩ := result
  · exact .pure ⟨rfl, rfl, roster⟩
  · refine (dispatch_listening (s := { s with findings := f }) (e := methodEvent c o.type m h)
      roster rfl (by rintro ⟨⟩) (by rintro ⟨⟩)).bind ?_
    rintro - t ⟨same, roster'⟩
    rw [methodEvent, response_react_method _ o.type _ _ rfl rfl,
      cohesion_react_method (c := o) _ _ rfl rfl] at roster'
    have follows : Follows o.type methods v o (p.announce c m f) p.sites t := ⟨same, rfl, roster'⟩
    exact follows.scanReferences c h (c.methodKey m) m.body

/-- The scan follows the methods of a class. -/
theorem scanMethods (follows : Follows o.type methods v o p sites s) (c : ClassFacts)
    (ms : List Method) :
    (ms.foldlM (BytecodeScan.scanMethod c o.type) sites).Ends s fun sites t =>
      Follows o.type methods v o (ms.foldl (declare c) p) sites t := by
  induction ms generalizing p sites s with
  | nil => exact .pure follows
  | cons m rest ih =>
      rw [List.foldlM_cons]
      exact (follows.scanMethod c m).bind fun _ _ follows => ih follows

/-- The class is left, and its measures are attached: the number of responses among what was
mentioned, and the number of components of the members. -/
theorem leave (follows : Follows o.type methods v o p sites s)
    (known : p.findings.index.Knows o.type) {visit : TypeVisit} (phase : visit.phase = .bytecode)
    (element : visit.element = o.type) :
    (dispatch (.leaveType visit)).Ends s fun _ t => p.findings.Remeasures t.findings ∧
      Measured t.findings.index o.type (p.mentions.foldl respond methods).length
        (p.mentions.foldl (cohere v.excludes) o).complete.components.length := by
  obtain ⟨findings, -, roster⟩ := follows
  rw [← findings] at known ⊢
  have leaves := dispatch_leave roster phase (element ▸ known)
  have measures := dispatch_leave_at roster phase known element rfl
  refine (leaves.and measures).mono ?_
  rintro - t ⟨⟨remeasures, -⟩, measures⟩
  have attached := (measures o.type).trans (if_pos rfl)
  have other : Metric.lcom4.name ≠ Metric.rfc.name := by decide
  refine ⟨remeasures, ?_, ?_⟩
  · rw [Index.measure?, attached, Std.ExtTreeMap.getElem?_insert,
      if_neg fun same => other (Std.LawfulEqOrd.compare_eq_iff_eq.mp same)]
    exact Std.ExtTreeMap.getElem?_insert_self
  · rw [Index.measure?, attached]
    exact Std.ExtTreeMap.getElem?_insert_self

end Follows

end ClassScan

namespace BytecodeScan

open Scanning

variable {σ : Type} {s : Session σ}

/-- **What a class is measured as.**  Scanning its members leads to the findings of the computation
above, and to the number of its responses and of the components of its members. -/
theorem scanMembers_measures (alone : Private s) (c : ClassFacts) (type : Handle)
    (sites : List (Handle × UInt32))
    (known : (ClassScan.of s.findings sites c type).findings.index.Knows type) :
    (scanMembers c type sites).Ends s fun sites' t =>
      sites' = (ClassScan.of s.findings sites c type).sites ∧
      (ClassScan.of s.findings sites c type).findings.Remeasures t.findings ∧
      ClassScan.Measured t.findings.index type (ClassScan.responses s.findings sites c type).length
        (ClassScan.members s.findings sites c type).components.length := by
  obtain ⟨rv, ⟨excluded, current⟩, roster, same⟩ := alone
  have excluded_eq : excluded = s.findings.config.excludedFields := same
  subst excluded_eq
  unfold scanMembers
  refine .alter_bind ?_
  refine (dispatch_listening (s := { s with findings := s.findings.openClass c type })
    (e := .type (typeVisit c type)) roster rfl (by rintro ⟨⟩) (by rintro ⟨⟩)).bind ?_
  rintro - t ⟨entered, roster'⟩
  rw [response_react_type _ rfl, cohesion_react_type _ rfl] at roster'
  let o := s.findings.config.cohesion.enter (typeVisit c type)
  have follows : ClassScan.Follows o.type (ClassScan.known s.findings c type)
      s.findings.config.cohesion o (ClassScan.enter s.findings sites c type) sites t :=
    ⟨entered, rfl, roster'⟩
  refine (follows.scanMethods c c.methods).bind ?_
  intro sites' u follows
  refine (follows.leave known rfl rfl).bind ?_
  rintro - t ⟨remeasures, measured⟩
  exact .pure ⟨follows.sites, remeasures, measured⟩

/-- A class that is accepted gets the size of its response set and the number of components of its
members, computed from what the scan has mentioned of it. -/
theorem scanClass_measures (alone : Private s) (sound : s.findings.toModel.Sound) (path : String)
    {progress : Progress} {c : ClassFacts} {type : Handle} {f : Findings}
    (accepted : s.findings.resolveType c.key = (.ok type, f)) (new : type ∉ progress.types) :
    (scanClass path progress c).Ends s fun p t =>
      p = ⟨(ClassScan.of f progress.sites c type).sites, type :: progress.types⟩ ∧
      (ClassScan.of f progress.sites c type).findings.Remeasures t.findings ∧
      ClassScan.Measured t.findings.index type (ClassScan.responses f progress.sites c type).length
        (ClassScan.members f progress.sites c type).components.length := by
  have tacit := s.findings.resolveType_tacit c.key
  rw [accepted] at tacit
  have sound' := tacit.evolves.sound sound
  have isType := Findings.isType_of_resolveType sound accepted
  have alone' : Private { s with findings := f } := alone.alter tacit.config
  have evolves := ClassScan.of_evolves sound' isType progress.sites
  have known := (evolves.grows sound').knows (.of_key? isType.1)
  unfold scanClass
  refine .edit_bind ?_
  rw [accepted]
  dsimp only
  rw [if_neg new]
  refine (scanMembers_measures alone' c type progress.sites known).bind ?_
  rintro sites t ⟨rfl, measured⟩
  exact .pure ⟨rfl, measured⟩

end BytecodeScan

end CodeMetrics
