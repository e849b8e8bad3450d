import CodeMetrics.Proofs.Scan.ClassScan
import CodeMetrics.Proofs.Scan.SkippedClasses

/-!
# Facts that are refused

A declaration or a dependency that does not fit is refused for good, and one that fits is never
refused later.  So the issues of a class tell which of its facts were refused, although they are
read when the class is done (`Findings.Vouched`).

A refused fact leaves the index as it is.  The scan of a class with it and the scan without it
therefore decide everything alike, and differ in what they say at most by the fact itself
(`ClassScan.Trails`).
-/

namespace CodeMetrics

namespace Index

variable {ix ix' : Index} {key : String} {kind : Kind}

/-- The key is known with a kind that fits. -/
def Admits (ix : Index) (key : String) (kind : Kind) : Prop :=
  ∃ existing, ix.Has key existing ∧ existing.Fits kind

/-- What an index admits it admits for ever, since an element keeps its kind unless a placeholder
becomes a type. -/
theorem Admits.grows (admits : ix.Admits key kind) (grows : ix.Grows ix') :
    ix'.Admits key kind := by
  obtain ⟨existing, ⟨h, named, is⟩, fits⟩ := admits
  rcases grows.kind_kept is with kept | ⟨rfl, promoted⟩
  · exact ⟨existing, ⟨h, grows.key_kept named, kept⟩, fits⟩
  · refine ⟨.type, ⟨h, grows.key_kept named, promoted⟩, .inr ⟨rfl, ?_⟩⟩
    rcases fits with rfl | ⟨-, level⟩
    · rfl
    · exact level

/-- Nothing is admitted and refused at once. -/
theorem Admits.not_refuses (admits : ix.Admits key kind) (coherent : ix.Coherent) :
    ¬ ix.Refuses key kind := by
  rintro ⟨existing, has, misfit⟩
  obtain ⟨existing', has', fits⟩ := admits
  exact misfit (has.unique has' coherent ▸ fits)

end Index

/-- The index refuses what the issue is about: a declaration of this kind, or any dependency. -/
def Issue.Due (ix : Index) : Issue → Prop
  | .kindConflict _ key _ requested => ix.Refuses key requested
  | .rejected _ key _ => ix.Refuses key .external
  | _ => True

/-- An issue that is due stays due: the conflict that it reports does not go away. -/
theorem Issue.Due.grows {ix ix' : Index} {i : Issue} (due : i.Due ix) (grows : ix.Grows ix') :
    i.Due ix' := by
  cases i with
  | kindConflict phase key existing requested => exact Index.Refuses.grows due grows
  | rejected phase key message => exact Index.Refuses.grows due grows
  | parseFailed path message => trivial
  | decodeFailed path message kept => trivial
  | duplicateClass path key => trivial

namespace Findings

variable {f f' g base : Findings} {c : ClassFacts} {type h : Handle} {key : String}

/-! ## What is accepted and what is refused -/

/-- A declaration has its key from then on, or it was refused and changes nothing but the report. -/
theorem declareFact_cases (sound : f.toModel.Sound) (phase : Phase) (key : String) (kind : Kind)
    (parent : Option String) :
    (∃ h f', f.declareFact phase key kind parent = (some h, f') ∧ f'.report = f.report ∧
        f'.index.key? h = some key ∧ f'.index.Admits key kind) ∨
      ∃ existing, f.index.Refuses key kind ∧ f.declareFact phase key kind parent =
        (none, f.record (.kindConflict phase key existing kind)) := by
  unfold declareFact
  rcases declared : f.declare key kind parent with ⟨e | h, f'⟩
  · obtain ⟨rfl, refuses, existing, rfl⟩ := refuses_of_declare sound.index declared
    exact .inr ⟨existing, refuses, rfl⟩
  · obtain ⟨registered, -, -, report, -⟩ := declare_eq_ok declared
    have registers := Index.register_registers sound.index.toCoherent registered
    refine .inl ⟨h, f', rfl, report, registers.named, ?_⟩
    rcases registers.is with is | ⟨is, rfl⟩
    · exact ⟨kind, ⟨h, registers.named, is⟩, .inl rfl⟩
    · exact ⟨.type, ⟨h, registers.named, is⟩, .inr ⟨rfl, rfl⟩⟩

/-- A dependency of a type has its target from then on, or it was refused and adds no element.  In
the second case there is an issue, which is due. -/
theorem depend_due (sound : f.toModel.Sound) (isType : f.index.IsType type key) (target : String)
    (kind : EdgeKind) :
    (f.depend key target kind).2.report = f.report ∧
        (f.depend key target kind).2.index.Admits target .external ∨
      ∃ message, f.index.Refuses target .external ∧
        (f.depend key target kind).2.index = f.index ∧
        (f.depend key target kind).2.report =
          f.report.record (.rejected .bytecode target message) := by
  by_cases self : key = target
  · subst self
    rw [depend_self]
    exact .inl ⟨rfl, .type, ⟨type, isType⟩, .inr ⟨rfl, rfl⟩⟩
  · have coherent := sound.index.toCoherent
    rw [depend_eq, Model.addEdge, if_neg self, Model.resolve_of_isType coherent isType]
    dsimp only
    have coherent' : (f.toModel.addVertex type).2.index.Coherent := coherent
    rcases Model.resolve_cases coherent' target with
      ⟨t, m, resolved, placed, -⟩ | ⟨targetKind, refused, known, low⟩
    · rw [resolved]
      refine .inl ⟨rfl, ?_⟩
      rcases placed.kind? with is | ⟨is, -⟩
      · exact ⟨.external, ⟨t, placed.key?, is⟩, .inl rfl⟩
      · exact ⟨.type, ⟨t, placed.key?, is⟩, .inr ⟨rfl, rfl⟩⟩
    · rw [refused]
      refine .inr ⟨_, ⟨targetKind, known, fun fits => ?_⟩, rfl, rfl⟩
      rw [Kind.fits_external_iff, low] at fits
      cases fits

/-! ## Issues are due -/

/-- The type of the class is there, and what was recorded since `base` is due. -/
structure Vouched (base : Findings) (c : ClassFacts) (type : Handle) (f : Findings) : Prop where
  sound : f.toModel.Sound
  isType : f.index.IsType type c.key
  issues : ∃ added, f.report.issues.toList = base.report.issues.toList ++ added ∧
    ∀ i ∈ added, i.Due f.index

namespace Vouched

/-- Nothing is recorded. -/
theorem silent (vouched : Vouched base c type f) (evolves : f.toModel.Evolves f'.toModel)
    (report : f'.report.issues = f.report.issues) : Vouched base c type f' := by
  have grows := evolves.grows vouched.sound
  obtain ⟨added, issues, due⟩ := vouched.issues
  refine ⟨evolves.sound vouched.sound, vouched.isType.grows grows, added, ?_, ?_⟩
  · rw [report, issues]
  · exact fun i listed => (due i listed).grows grows

/-- An issue is recorded that is due. -/
theorem record (vouched : Vouched base c type f) (evolves : f.toModel.Evolves f'.toModel)
    {i : Issue} (report : f'.report = f.report.record i) (due : i.Due f'.index) :
    Vouched base c type f' := by
  have grows := evolves.grows vouched.sound
  obtain ⟨added, issues, before⟩ := vouched.issues
  refine ⟨evolves.sound vouched.sound, vouched.isType.grows grows, added ++ [i], ?_, ?_⟩
  · rw [report, Report.record, Array.toList_push, issues, List.append_assoc]
  · intro j listed
    rcases List.mem_append.mp listed with old | new
    · exact (before j old).grows grows
    · rwa [List.mem_singleton.mp new]

/-- Counting a dependency of the open class keeps all issues due, also the one that it may add. -/
theorem depend (vouched : Vouched base c type f) (target : String) (kind : EdgeKind) :
    Vouched base c type (f.depend c.key target kind).2 := by
  have evolves := f.depend_evolves c.key target kind
  rcases depend_due vouched.sound vouched.isType target kind with
    ⟨report, -⟩ | ⟨message, refuses, index, report⟩
  · exact vouched.silent evolves (congrArg Report.issues report)
  · refine vouched.record evolves report ?_
    rw [index]
    exact refuses

/-- Registering a member of the open class keeps all issues due, also the one that it may add. -/
theorem declareFact (vouched : Vouched base c type f) (key : String) {kind : Kind}
    (member : kind = .field ∨ kind = .method) :
    Vouched base c type (f.declareFact .bytecode key kind (some c.key)).2 := by
  have evolves := (declareMember_keeps vouched.sound key member (some c.key)).evolves
  rcases declareFact_cases vouched.sound .bytecode key kind (some c.key) with
    ⟨h, f', declared, report, -⟩ | ⟨existing, refuses, declared⟩
  · rw [declared] at evolves ⊢
    exact vouched.silent evolves (congrArg Report.issues report)
  · rw [declared] at evolves ⊢
    exact vouched.record evolves rfl refuses

/-- All issues from opening a class are due at the end of it. -/
theorem openClass (sound : f.toModel.Sound) (isType : f.index.IsType type c.key) :
    Vouched f c type (f.openClass c type) := by
  refine openClass_induction ?_ ?_ ?_ ?_
  · exact ⟨(entered_evolves isType).sound sound, isType, [], (List.append_nil _).symm,
      List.forall_mem_nil _⟩
  · exact fun _ key kind vouched => vouched.depend key kind
  · exact fun _ above vouched => ⟨vouched.sound, vouched.isType, vouched.issues⟩
  · exact fun _ field _ vouched => vouched.declareFact (c.fieldKey field) (.inl rfl)

/-- Counting a reference of the open class keeps all issues due. -/
theorem addReference (vouched : Vouched base c type f) (r : Reference) :
    Vouched base c type (f.addReference c r) := by
  rw [addReference_eq]
  exact vouched.depend r.owner r.edgeKind

/-- What was recorded since then is due. -/
theorem due (vouched : Vouched base c type f) {i : Issue}
    (recorded : i ∈ f.report.issues.toList.drop base.report.issues.size) : i.Due f.index := by
  obtain ⟨added, issues, due⟩ := vouched.issues
  rw [issues, ← Array.length_toList, List.drop_left] at recorded
  exact due i recorded

end Vouched

/-! ## The same elements -/

/-- What a dependency of a type adds to the index depends on the index only: a placeholder for the
target, if its key is unknown. -/
theorem index_depend (coherent : f.index.Coherent) (isType : f.index.IsType type key)
    (target : String) (kind : EdgeKind) :
    (f.depend key target kind).2.index = (f.index.registerExternal target).2 := by
  have resolved (m : Model) (same : m.index = f.index) :
      (m.resolve target).2.index = (f.index.registerExternal target).2 := by
    unfold Model.resolve
    rw [same]
    cases found : f.index.find? target with
    | none => simp only [Model.registerExternal, Model.addVertex, Model.note, same]
    | some e =>
        obtain ⟨known, named⟩ := coherent.find?_eq_some_iff.mp found
        have listed : f.index.handle? target = some e.handle :=
          coherent.handle?_iff.mpr (by rw [Index.key?_of_get? known, named])
        simp only [Index.registerExternal, listed]
        split
        · exact same
        · exact same
  by_cases self : key = target
  · subst self
    -- a class that refers to itself: its key is known
    rw [depend_self, Index.registerExternal, coherent.handle?_iff.mpr isType.1]
  · rw [depend_eq, Model.addEdge, if_neg self, Model.resolve_of_isType coherent isType]
    dsimp only
    have index := resolved (f.toModel.addVertex type).2 rfl
    generalize (f.toModel.addVertex type).2.resolve target = result at index ⊢
    obtain ⟨e | t, m⟩ := result
    · exact index
    · exact index

/-- A reference does one thing to the index: the owner of its target becomes a placeholder if it is
unknown. -/
theorem index_addReference (coherent : f.index.Coherent) (isType : f.index.IsType type c.key)
    (r : Reference) :
    (f.addReference c r).index = (f.index.registerExternal r.owner).2 := by
  rw [addReference_eq]
  exact index_depend coherent isType r.owner r.edgeKind

/-- Findings with the same index register a fact alike. -/
theorem declareFact_of_index (same : g.index = f.index) (phase : Phase) (key : String)
    (kind : Kind) (parent : Option String) :
    (g.declareFact phase key kind parent).1 = (f.declareFact phase key kind parent).1 ∧
      (g.declareFact phase key kind parent).2.index =
        (f.declareFact phase key kind parent).2.index := by
  unfold declareFact declare Model.register
  rw [same]
  cases f.index.register key kind parent with
  | ok result => exact ⟨rfl, rfl⟩
  | error e => exact ⟨rfl, same⟩

/-- One more field of a class. -/
def addField (c : ClassFacts) (f : Findings) (field : Field) : Findings :=
  (f.declareFact .bytecode (c.fieldKey field) .field (some c.key)).2

/-- Findings with the same index register fields alike, one after the other. -/
theorem index_foldl_addField_of_index (same : g.index = f.index) (c : ClassFacts)
    (fields : List Field) :
    (fields.foldl (addField c) g).index = (fields.foldl (addField c) f).index := by
  induction fields generalizing f g with
  | nil => exact same
  | cons field rest ih =>
      obtain ⟨-, index⟩ :=
        declareFact_of_index same .bytecode (c.fieldKey field) .field (some c.key)
      exact ih index

/-- Registering fields keeps the extensions and superclasses. -/
theorem foldl_addField_keeps (sound : f.toModel.Sound) (c : ClassFacts) (fields : List Field) :
    f.Keeps (fields.foldl (addField c) f) :=
  .foldl (fun _ field sound =>
    declareMember_keeps sound (c.fieldKey field) (.inl rfl) (some c.key)) fields sound

/-- A field that is refused in the end was refused when the class was opened, so without it the
class is opened with the same elements.  Had it been accepted, its key would be that of a field to
the end. -/
theorem index_openClass_of_refuses (sound : f.toModel.Sound) (isType : f.index.IsType type c.key)
    {before after : List Field} {field : Field} (fields : c.fields = before ++ field :: after)
    {ix : Index} (later : (f.openClass c type).index.Grows ix) (coherent : ix.Coherent)
    (refuses : ix.Refuses (c.fieldKey field) .field) :
    (f.openClass { c with fields := before ++ after } type).index = (f.openClass c type).index := by
  let f₀ := f.openClass { c with fields := [] } type
  have opened : f.openClass c type = after.foldl (addField c)
      (addField c (before.foldl (addField c) f₀) field) := by
    have all : f.openClass c type = c.fields.foldl (addField c) f₀ := rfl
    rw [all, fields, List.foldl_append, List.foldl_cons]
  have without : f.openClass { c with fields := before ++ after } type =
      after.foldl (addField c) (before.foldl (addField c) f₀) := by
    rw [← List.foldl_append]
    rfl
  have sound₀ : f₀.toModel.Sound :=
    (Vouched.openClass (c := { c with fields := [] }) sound isType).sound
  have sound₁ := (foldl_addField_keeps sound₀ c before).evolves.sound sound₀
  rw [opened] at later ⊢
  rw [without]
  generalize before.foldl (addField c) f₀ = f₁ at sound₁ later ⊢
  refine (index_foldl_addField_of_index ?_ c after).symm
  have keeps := declareMember_keeps sound₁ (c.fieldKey field) (.inl rfl) (some c.key)
  -- had the field been accepted when it was tried, its key would still be that of a field
  rcases declareFact_cases sound₁ .bytecode (c.fieldKey field) .field (some c.key) with
    ⟨h, f₂, declared, -, -, admits⟩ | ⟨existing, -, declared⟩
  · rw [addField, declared] at later
    rw [declared] at keeps
    have sound₂ := keeps.evolves.sound sound₁
    have grows := (foldl_addField_keeps sound₂ c after).evolves.grows sound₂
    exact absurd refuses ((admits.grows (grows.trans later)).not_refuses coherent)
  · rw [addField, declared]
    rfl

end Findings

namespace ClassScan

open Findings

variable {p q : ClassScan} {c : ClassFacts} {type method : Handle} {base : Findings}
  {key : String} {place : Handle × UInt32}

/-- A reference of the open class keeps all issues due, whether it is applied or was at this place
before. -/
theorem vouched_refer (vouched : Vouched base c type p.findings) (method : Handle) (key : String)
    (r : Reference) : Vouched base c type (p.refer c method key r).findings := by
  unfold refer
  split
  · exact vouched
  · exact vouched.addReference r

/-- The references of a body keep all issues due. -/
theorem vouched_foldl_refer (vouched : Vouched base c type p.findings) (method : Handle)
    (key : String) (rs : List Reference) :
    Vouched base c type (rs.foldl (refer c method key) p).findings := by
  induction rs generalizing p with
  | nil => exact vouched
  | cons r rest ih => exact ih (vouched_refer vouched method key r)

/-- The index grows along the references of a body. -/
theorem grows_foldl_refer (vouched : Vouched base c type p.findings) (method : Handle)
    (key : String) (rs : List Reference) :
    p.findings.index.Grows (rs.foldl (refer c method key) p).findings.index :=
  (foldl_refer_keeps vouched.sound c method key rs).evolves.grows vouched.sound

/-- A method is refused and nothing is added, or it is there and its references follow, from a model
that has the method. -/
theorem declare_cases (vouched : Vouched base c type p.findings) (m : Method) :
    (∃ f, p.declare c m = { p with findings := f } ∧ Vouched base c type f ∧
        p.findings.declareFact .bytecode (c.methodKey m) .method (some c.key) = (none, f) ∧
        p.findings.index.Refuses (c.methodKey m) .method) ∨
      ∃ h f, p.declare c m = m.body.foldl (refer c h (c.methodKey m)) (p.announce c m f) ∧
        Vouched base c type f ∧
        p.findings.declareFact .bytecode (c.methodKey m) .method (some c.key) = (some h, f) ∧
        (p.declare c m).findings.index.key? h = some (c.methodKey m) := by
  have vouched' := vouched.declareFact (c.methodKey m) (.inr rfl)
  rcases declareFact_cases vouched.sound .bytecode (c.methodKey m) .method (some c.key) with
    ⟨h, f, answer, -, named, -⟩ | ⟨existing, refuses, answer⟩
  · rw [answer] at vouched'
    have declared := declare_of_some answer
    have grows := grows_foldl_refer (p := p.announce c m f) vouched' h (c.methodKey m) m.body
    rw [← declared] at grows
    exact .inr ⟨h, f, declared, vouched', answer, grows.key_kept named⟩
  · rw [answer] at vouched'
    exact .inl ⟨_, declare_of_none answer, vouched', answer, refuses⟩

/-- A method of the open class with its body keeps all issues due. -/
theorem vouched_declare (vouched : Vouched base c type p.findings) (m : Method) :
    Vouched base c type (p.declare c m).findings := by
  rcases declare_cases vouched m with ⟨f, declared, vouched', -⟩ | ⟨h, f, declared, vouched', -⟩
  · rw [declared]
    exact vouched'
  · rw [declared]
    exact vouched_foldl_refer (p := p.announce c m f) vouched' h (c.methodKey m) m.body

/-- The methods of a class keep all issues due. -/
theorem vouched_foldl_declare (vouched : Vouched base c type p.findings) (ms : List Method) :
    Vouched base c type (ms.foldl (declare c) p).findings := by
  induction ms generalizing p with
  | nil => exact vouched
  | cons m rest ih => exact ih (vouched_declare vouched m)

/-- The index grows along the methods of a class. -/
theorem grows_foldl_declare (vouched : Vouched base c type p.findings) (ms : List Method) :
    p.findings.index.Grows (ms.foldl (declare c) p).findings.index :=
  (foldl_declare_keeps vouched.sound c ms).evolves.grows vouched.sound

/-! ## Places -/

/-- A method has a reference at this place. -/
def Occupies (c : ClassFacts) (ix : Index) (m : Method) (place : Handle × UInt32) : Prop :=
  ix.key? place.1 = some (c.methodKey m) ∧ ∃ r ∈ m.body, r.site = place.2

/-- A place that is taken after a body was taken before it, or by one of its references. -/
theorem mem_sites_foldl_refer {rs : List Reference}
    (listed : place ∈ (rs.foldl (refer c method key) p).sites) :
    place ∈ p.sites ∨ ∃ r ∈ rs, (method, r.site) = place := by
  induction rs generalizing p with
  | nil => exact .inl listed
  | cons r rest ih =>
      rcases ih listed with before | ⟨r', later, rfl⟩
      · unfold refer at before
        split at before
        · exact .inl before
        · rcases List.mem_cons.mp before with rfl | before
          · exact .inr ⟨r, List.mem_cons_self, rfl⟩
          · exact .inl before
      · exact .inr ⟨r', List.mem_cons_of_mem r later, rfl⟩

/-- References stand where the methods of the class have them.  Each place that was taken belongs to
one of the methods, under the handle of its key. -/
theorem mem_sites_foldl_declare (vouched : Vouched base c type p.findings) {ms : List Method}
    (listed : place ∈ (ms.foldl (declare c) p).sites) {ix : Index}
    (later : (ms.foldl (declare c) p).findings.index.Grows ix) :
    place ∈ p.sites ∨ ∃ m ∈ ms, Occupies c ix m place := by
  induction ms generalizing p with
  | nil => exact .inl listed
  | cons m rest ih =>
      have vouched' := vouched_declare vouched m
      rcases ih vouched' listed later with before | ⟨m', among, occupies⟩
      · have grows := (grows_foldl_declare vouched' rest).trans later
        rcases declare_cases vouched m with ⟨f, declared, -⟩ | ⟨h, f, declared, -, -, named⟩
        · rw [declared] at before
          exact .inl before
        · rw [declared] at before
          rcases mem_sites_foldl_refer before with before | ⟨r, inside, rfl⟩
          · exact .inl before
          · exact .inr ⟨m, List.mem_cons_self, grows.key_kept named, r, inside, rfl⟩
      · exact .inr ⟨m', List.mem_cons_of_mem m among, occupies⟩

/-! ## Two scans -/

/-- Both scans know the same elements.  The second one has not been at the hidden places, and has
not said `extra`. -/
structure Trails (hidden : List (Handle × UInt32)) (early extra : List Mention)
    (p q : ClassScan) : Prop where
  index : q.findings.index = p.findings.index
  sites : ∀ place ∉ hidden, (place ∈ q.sites ↔ place ∈ p.sites)
  mentions : ∃ late, p.mentions = early ++ extra ++ late ∧ q.mentions = early ++ late

namespace Trails

variable {hidden : List (Handle × UInt32)} {early extra : List Mention}

/-- A reference that is refused in the end hides its place.  It was refused at once, so the index is
the same without it, and one mention is missing. -/
theorem of_refuses (vouched : Vouched base c type p.findings) (key : String) {r : Reference}
    (fresh : (method, r.site) ∉ p.sites) {ix : Index}
    (later : (p.refer c method key r).findings.index.Grows ix) (coherent : ix.Coherent)
    (refuses : ix.Refuses r.owner .external) :
    Trails [(method, r.site)] p.mentions [.reference ⟨c.key, key, r⟩] (p.refer c method key r)
      p := by
  rw [refer_of_notMem fresh] at later ⊢
  refine ⟨?_, fun place outside => ?_, [], (List.append_nil _).symm, (List.append_nil _).symm⟩
  · rw [addReference_eq] at later ⊢
    rcases depend_due vouched.sound vouched.isType r.owner r.edgeKind with
      ⟨-, admits⟩ | ⟨message, -, index, -⟩
    · exact absurd refuses ((admits.grows later).not_refuses coherent)
    · exact index.symm
  · have other : place ≠ (method, r.site) := fun same => outside (List.mem_singleton.mpr same)
    exact ⟨List.mem_cons_of_mem _, fun listed => (List.mem_cons.mp listed).resolve_left other⟩

/-- Both say the same, and know the same elements again. -/
theorem say (trails : Trails hidden early extra p q) {f g : Findings} (index : g.index = f.index)
    (m : Mention) : Trails hidden early extra ⟨f, p.sites, p.mentions ++ [m]⟩
      ⟨g, q.sites, q.mentions ++ [m]⟩ := by
  obtain ⟨late, said, said'⟩ := trails.mentions
  refine ⟨index, trails.sites, late ++ [m], ?_, ?_⟩
  · rw [said, List.append_assoc]
  · rw [said', List.append_assoc]

/-- Two scans stay on the same trail over a reference that is not at a hidden place: both apply it,
or both pass it over. -/
theorem refer (trails : Trails hidden early extra p q) (vouched : Vouched base c type p.findings)
    (key : String) {r : Reference} (apart : (method, r.site) ∉ hidden) :
    Trails hidden early extra (p.refer c method key r) (q.refer c method key r) := by
  by_cases seen : (method, r.site) ∈ p.sites
  · rw [refer_of_mem seen, refer_of_mem ((trails.sites _ apart).mpr seen)]
    exact trails
  · rw [refer_of_notMem seen, refer_of_notMem fun seen' => seen ((trails.sites _ apart).mp seen')]
    have coherent := vouched.sound.index.toCoherent
    have index : (q.findings.addReference c r).index = (p.findings.addReference c r).index := by
      rw [index_addReference coherent vouched.isType,
        index_addReference (trails.index ▸ coherent) (trails.index ▸ vouched.isType), trails.index]
    have said := trails.say index (.reference ⟨c.key, key, r⟩)
    refine ⟨said.index, fun place outside => ?_, said.mentions⟩
    rw [List.mem_cons, List.mem_cons, trails.sites place outside]

/-- Two scans stay on the same trail over a body without a hidden place. -/
theorem foldl_refer (trails : Trails hidden early extra p q)
    (vouched : Vouched base c type p.findings) (key : String) {rs : List Reference}
    (apart : ∀ r ∈ rs, (method, r.site) ∉ hidden) :
    Trails hidden early extra (rs.foldl (ClassScan.refer c method key) p)
      (rs.foldl (ClassScan.refer c method key) q) := by
  induction rs generalizing p q with
  | nil => exact trails
  | cons r rest ih =>
      obtain ⟨first, apart⟩ := List.forall_mem_cons.mp apart
      exact ih (trails.refer vouched key first) (vouched_refer vouched method key r) apart

/-- Two scans stay on the same trail over a method that occupies no hidden place.  Both register it,
or both refuse it, since their indexes are the same. -/
theorem declare (trails : Trails hidden early extra p q)
    (vouched : Vouched base c type p.findings) {m : Method}
    (apart : ∀ place ∈ hidden, ¬ Occupies c (p.declare c m).findings.index m place) :
    Trails hidden early extra (p.declare c m) (q.declare c m) := by
  obtain ⟨answer, index⟩ :=
    declareFact_of_index trails.index .bytecode (c.methodKey m) .method (some c.key)
  rcases answered' : q.findings.declareFact .bytecode (c.methodKey m) .method (some c.key) with
    ⟨a, g⟩
  rw [answered'] at answer index
  rcases declare_cases vouched m with
    ⟨f, declared, -, answered, -⟩ | ⟨h, f, declared, vouched', answered, named⟩
  · rw [answered] at answer index
    obtain rfl : a = none := answer
    rw [declared, declare_of_none answered']
    exact ⟨index, trails.sites, trails.mentions⟩
  · rw [answered] at answer index
    obtain rfl : a = some h := answer
    have clear : ∀ r ∈ m.body, (h, r.site) ∉ hidden := by
      intro r inside among
      exact apart _ among ⟨named, r, inside, rfl⟩
    rw [declared, declare_of_some answered']
    exact (trails.say index _).foldl_refer (p := p.announce c m f) vouched' (c.methodKey m) clear

/-- Both scans go on alike with methods that have no reference at a hidden place. -/
theorem foldl_declare (trails : Trails hidden early extra p q)
    (vouched : Vouched base c type p.findings) {ms : List Method} {ix : Index}
    (later : (ms.foldl (ClassScan.declare c) p).findings.index.Grows ix)
    (apart : ∀ m ∈ ms, ∀ place ∈ hidden, ¬ Occupies c ix m place) :
    Trails hidden early extra (ms.foldl (ClassScan.declare c) p)
      (ms.foldl (ClassScan.declare c) q) := by
  induction ms generalizing p q with
  | nil => exact trails
  | cons m rest ih =>
      have vouched' := vouched_declare vouched m
      have grows := (grows_foldl_declare vouched' rest).trans later
      obtain ⟨first, apart⟩ := List.forall_mem_cons.mp apart
      refine ih (trails.declare vouched fun place among occupies => ?_) vouched' later apart
      exact first place among ⟨grows.key_kept occupies.1, occupies.2⟩

/-- A method with a reference that is refused in the end, and the method without it, lead to the
same trail.  The place of the reference is hidden from then on: it is taken in one of the two scans
only. -/
theorem of_method (vouched : Vouched base c type p.findings) {signature : String}
    {before after : List Reference} {r : Reference} {h : Handle} (fresh : (h, r.site) ∉ p.sites)
    (apart : ∀ r' ∈ before ++ after, r'.site ≠ r.site) {ix : Index} (coherent : ix.Coherent)
    (later : (p.declare c ⟨signature, before ++ r :: after⟩).findings.index.Grows ix)
    (named : ix.key? h = some (Key.member c.key signature)) (is : ix.kind? h = some .method)
    (refuses : ix.Refuses r.owner .external) :
    ∃ said, Trails [(h, r.site)] said [.reference ⟨c.key, Key.member c.key signature, r⟩]
      (p.declare c ⟨signature, before ++ r :: after⟩)
      (p.declare c ⟨signature, before ++ after⟩) := by
  rcases declare_cases vouched ⟨signature, before ++ r :: after⟩ with
    ⟨f, declared, -, -, refused⟩ | ⟨h', f, declared, vouched', answered, named'⟩
  · -- the key of the method is that of a method in the end
    have keeps := declare_keeps vouched.sound c ⟨signature, before ++ r :: after⟩
    have grows := (keeps.evolves.grows vouched.sound).trans later
    exact absurd ⟨h, named, is⟩ ((refused.grows grows).not_has coherent)
  · obtain rfl : h' = h := coherent.key?_injective (later.key_kept named') named
    have declared' : p.declare c ⟨signature, before ++ after⟩ =
        (before ++ after).foldl (ClassScan.refer c h' (Key.member c.key signature))
          (p.announce c ⟨signature, before ++ r :: after⟩ f) := declare_of_some answered
    -- the two bodies are the same up to here, and only the first one goes on with the reference
    let q := before.foldl (ClassScan.refer c h' (Key.member c.key signature))
      (p.announce c ⟨signature, before ++ r :: after⟩ f)
    have vouched₁ : Vouched base c type q.findings :=
      vouched_foldl_refer (p := p.announce c _ f) vouched' h' _ before
    have vouched₂ := vouched_refer vouched₁ h' (Key.member c.key signature) r
    have fresh' : (h', r.site) ∉ q.sites := by
      intro listed
      rcases mem_sites_foldl_refer listed with old | ⟨r', inside, same⟩
      · exact fresh old
      · exact apart r' (List.mem_append_left _ inside) (Prod.mk.inj same).2
    have whole : p.declare c ⟨signature, before ++ r :: after⟩ =
        after.foldl (ClassScan.refer c h' (Key.member c.key signature))
          (q.refer c h' (Key.member c.key signature) r) := by
      rw [declared, List.foldl_append, List.foldl_cons]
      rfl
    rw [whole] at later ⊢
    rw [declared', List.foldl_append]
    have grows := (grows_foldl_refer vouched₂ h' (Key.member c.key signature) after).trans later
    refine ⟨q.mentions, (of_refuses vouched₁ _ fresh' grows coherent refuses).foldl_refer vouched₂ _
      fun r' inside hidden => ?_⟩
    have same := List.mem_singleton.mp hidden
    exact apart r' (List.mem_append_right _ inside) (Prod.mk.inj same).2

end Trails

/-! ## The scan without a fact -/

section Without

variable {f : Findings} {sites : List (Handle × UInt32)} (sound : f.toModel.Sound)
  (isType : f.index.IsType type c.key)
include sound isType

/-- All issues of a class are due when its scan is complete. -/
theorem vouched_of (sites : List (Handle × UInt32)) :
    Vouched f c type (of f sites c type).findings :=
  vouched_foldl_declare (p := enter f sites c type) (.openClass sound isType) c.methods

/-- Without a field that is refused, the class is opened with the same elements, and the same is
said about it.  What differs are the issues. -/
theorem of_without_field {before after : List Field} {field : Field}
    (fields : c.fields = before ++ field :: after)
    (refuses : (of f sites c type).findings.index.Refuses (c.fieldKey field) .field) :
    (f.openClass { c with fields := before ++ after } type).index = (f.openClass c type).index ∧
      (of f sites { c with fields := before ++ after } type).mentions =
        (of f sites c type).mentions := by
  have vouched := vouched_of sound isType sites
  have opened : Vouched f c type (enter f sites c type).findings := .openClass sound isType
  have index := index_openClass_of_refuses sound isType fields
    (grows_foldl_declare opened c.methods) vouched.sound.index.toCoherent refuses
  have start : Trails [] [] [] (enter f sites c type)
      (enter f sites { c with fields := before ++ after } type) :=
    ⟨index, fun _ _ => Iff.rfl, [], rfl, rfl⟩
  have trails : Trails [] [] [] (of f sites c type)
      (of f sites { c with fields := before ++ after } type) :=
    start.foldl_declare opened (.refl _) fun _ _ _ hidden => (List.not_mem_nil hidden).elim
  obtain ⟨late, said, said'⟩ := trails.mentions
  exact ⟨index, said'.trans said.symm⟩

/-- Without a reference that is refused, the reference itself is not said, and all else is.  No
other reference of the class stands at its place, so none is let in by its absence. -/
theorem of_without_reference {early late : List Method} {signature : String}
    {before after : List Reference} {r : Reference} {h : Handle}
    (methods : c.methods = early ++ ⟨signature, before ++ r :: after⟩ :: late)
    (named : (of f sites c type).findings.index.key? h = some (Key.member c.key signature))
    (is : (of f sites c type).findings.index.kind? h = some .method)
    (new : (h, r.site) ∉ sites)
    (apart : ∀ m ∈ early ++ ⟨signature, before ++ after⟩ :: late, m.signature = signature →
      ∀ r' ∈ m.body, r'.site ≠ r.site)
    (refuses : (of f sites c type).findings.index.Refuses r.owner .external) :
    ∃ said more,
      (of f sites c type).mentions =
        said ++ [.reference ⟨c.key, Key.member c.key signature, r⟩] ++ more ∧
      (of f sites { c with methods := early ++ ⟨signature, before ++ after⟩ :: late } type).mentions
        = said ++ more := by
  have vouched := vouched_of sound isType sites
  have coherent := vouched.sound.index.toCoherent
  have opened : Vouched f c type (enter f sites c type).findings := .openClass sound isType
  -- no other reference stands at the place of this one
  have alone : ∀ m ∈ early ++ ⟨signature, before ++ after⟩ :: late,
      ¬ Occupies c (of f sites c type).findings.index m (h, r.site) := by
    rintro m listed ⟨key, r', inside, site⟩
    have same := Key.member_right_inj.mp (Option.some.inj (key.symm.trans named))
    exact apart m listed same r' inside site
  have whole : of f sites c type = late.foldl (declare c)
      ((early.foldl (declare c) (enter f sites c type)).declare c
        ⟨signature, before ++ r :: after⟩) := by
    rw [of, methods, List.foldl_append, List.foldl_cons]
  have without :
      of f sites { c with methods := early ++ ⟨signature, before ++ after⟩ :: late } type =
        late.foldl (declare c) ((early.foldl (declare c) (enter f sites c type)).declare c
          ⟨signature, before ++ after⟩) := by
    show List.foldl (declare c) (enter f sites c type) _ = _
    rw [List.foldl_append, List.foldl_cons]
  have vouched₀ := vouched_foldl_declare opened early
  have vouched₁ := vouched_declare vouched₀ ⟨signature, before ++ r :: after⟩
  have later := grows_foldl_declare vouched₁ late
  rw [← whole] at later
  have fresh : (h, r.site) ∉ (early.foldl (declare c) (enter f sites c type)).sites := by
    intro listed
    have grows := (declare_keeps vouched₀.sound c ⟨signature, before ++ r :: after⟩).evolves.grows
      vouched₀.sound
    rcases mem_sites_foldl_declare opened listed (grows.trans later) with old | ⟨m, among, occupies⟩
    · exact new old
    · exact alone m (List.mem_append_left _ among) occupies
  have own : ∀ r' ∈ before ++ after, r'.site ≠ r.site :=
    apart ⟨signature, before ++ after⟩ (List.mem_append_right _ List.mem_cons_self) rfl
  obtain ⟨said, trails⟩ := Trails.of_method vouched₀ fresh own coherent later named is refuses
  have clear : ∀ m ∈ late, ∀ place ∈ [(h, r.site)],
      ¬ Occupies c (of f sites c type).findings.index m place := by
    intro m among place hidden
    rw [List.mem_singleton.mp hidden]
    exact alone m (List.mem_append_right _ (List.mem_cons_of_mem _ among))
  rw [whole] at clear ⊢
  rw [without]
  obtain ⟨more, said₁, said₂⟩ := (trails.foldl_declare vouched₁ (.refl _) clear).mentions
  exact ⟨said, more, said₁, said₂⟩

end Without

end ClassScan

end CodeMetrics
