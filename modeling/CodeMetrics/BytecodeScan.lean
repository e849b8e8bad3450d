import CodeMetrics.SourceScan

/-!
# The bytecode scan

The classes of the artifacts are applied in order: a class is placed in the model, its supertypes,
fields and methods are recorded, and each reference in a method body is counted as a dependency.

* A class that was scanned before, in any artifact of the same scan, is left out.
* Of several references of one method at one site only the first counts.
* Whatever does not fit the model becomes an issue, and the rest of the class is still applied.
* The classes decoded before an artifact failed are kept.
-/

namespace CodeMetrics

namespace Findings

/-- Places a new type, or a placeholder that becomes one, in its package. -/
def placeType (f : Findings) (key : String) : Except IndexError Handle × Findings :=
  match f.ensureProject with
  | (.error e, f) => (.error e, f)
  | (.ok project, f) =>
    match Key.package? key with
    | none => f.declare key .type (some project)
    | some package =>
      match f.declare package .package (some project) with
      | (.error e, f) => (.error e, f)
      | (.ok _, f) => f.declare key .type (some package)

/-- Finds or creates the type of a class.  A type that is known stays where it is. -/
def resolveType (f : Findings) (key : String) : Except IndexError Handle × Findings :=
  match f.index.find? key with
  | none => f.placeType key
  | some e =>
    match e.kind with
    | .type => (.ok e.handle, f)
    | .external => f.placeType key
    | existing => (.error (.kindConflict key existing .type), f)

/-- Records the superclass of a class.  A class that extends itself has no edge but still has a
superclass; one whose superclass is refused counts as a root. -/
def addSuperclass (f : Findings) (c : ClassFacts) (type : Handle) : Findings :=
  match c.superclass with
  | none => f.recordSuperclass type none
  | some superclass =>
    let (accepted, f) := f.depend c.key superclass .extension
    f.recordSuperclass type (if accepted then f.index.handle? superclass else none)

/-- Records the interfaces of a class. -/
def addInterfaces (f : Findings) (c : ClassFacts) : Findings :=
  c.interfaces.foldl (fun f key => (f.depend c.key key .implementation).2) f

/-- Registers the fields of a class. -/
def addFields (f : Findings) (c : ClassFacts) : Findings :=
  c.fields.foldl
    (fun f field => (f.declareFact .bytecode (c.fieldKey field) .field (some c.key)).2) f

/-- Counts a class as scanned and adds it with its supertypes and fields. -/
def openClass (f : Findings) (c : ClassFacts) (type : Handle) : Findings :=
  let report := { f.report with classesScanned := f.report.classesScanned + 1 }
  let f := { f.withModel (f.toModel.addVertex type).2 with report := report }
  ((f.addSuperclass c type).addInterfaces c).addFields c

/-- Counts a reference from a class as a dependency on the owner of the member. -/
def addReference (f : Findings) (c : ClassFacts) (r : Reference) : Findings :=
  let kind : EdgeKind :=
    match r with
    | .call _ => .call
    | .access _ => .fieldUse
  (f.depend c.key r.owner kind).2

end Findings

namespace BytecodeScan

variable {σ : Type}

/-- What a bytecode scan has met so far. -/
structure Progress where
  /-- The methods and sites of the references that were applied. -/
  sites : List (Handle × UInt32) := []
  /-- The types whose class was applied. -/
  types : List Handle := []
deriving DecidableEq

/-- Applies a reference of a method, unless an earlier one has the same site. -/
def scanReference (c : ClassFacts) (type method : Handle) (methodKey : String)
    (sites : List (Handle × UInt32)) (r : Reference) : Scanning σ (List (Handle × UInt32)) := do
  if (method, r.site) ∈ sites then
    return sites
  else
    Scanning.dispatch (.reference
      { element := type, typeKey := c.key, methodKey := methodKey, reference := r })
    Scanning.alter (·.addReference c r)
    return (method, r.site) :: sites

/-- Applies a method of a class with its body. -/
def scanMethod (c : ClassFacts) (type : Handle) (sites : List (Handle × UInt32)) (m : Method) :
    Scanning σ (List (Handle × UInt32)) := do
  let key := c.methodKey m
  match ← Scanning.edit (·.declareFact .bytecode key .method (some c.key)) with
  | none => return sites
  | some method =>
    Scanning.dispatch (.method
      { phase := .bytecode
        element := method
        key := key
        owner := some type
        signature := m.signature })
    m.body.foldlM (scanReference c type method key) sites

/-- What visitors are told of a class. -/
def typeVisit (c : ClassFacts) (type : Handle) : TypeVisit where
  phase := .bytecode
  element := type
  key := c.key
  superclass := c.superclass
  interfaces := c.interfaces
  fields := c.fields

/-- Applies a class whose type is new to this scan. -/
def scanMembers (c : ClassFacts) (type : Handle) (sites : List (Handle × UInt32)) :
    Scanning σ (List (Handle × UInt32)) := do
  Scanning.alter (·.openClass c type)
  Scanning.dispatch (.type (typeVisit c type))
  let sites ← c.methods.foldlM (scanMethod c type) sites
  Scanning.dispatch (.leaveType (typeVisit c type))
  return sites

/-- Applies a class found in the artifact at `path`. -/
def scanClass (path : String) (progress : Progress) (c : ClassFacts) :
    Scanning σ Progress := do
  match ← Scanning.edit (·.resolveType c.key) with
  | .error e =>
    Scanning.alter (·.record (.ofIndexError .bytecode c.key e))
    return progress
  | .ok type =>
    if type ∈ progress.types then
      Scanning.alter (·.record (.duplicateClass path c.key))
      return progress
    else
      let sites ← scanMembers c type progress.sites
      return ⟨sites, type :: progress.types⟩

/-- Applies the classes of an artifact. -/
def scanArtifact (progress : Progress) (a : Artifact) : Scanning σ Progress := do
  match a.error with
  | none =>
    Scanning.alter (·.say .debug s!"{a.path}: {a.classes.length} classes")
    a.classes.foldlM (scanClass a.path) progress
  | some e =>
    let progress ← a.classes.foldlM (scanClass a.path) progress
    Scanning.alter (·.record (.decodeFailed a.path e.message a.classes.length))
    return progress

/-- The message at the end of the scan; the time it took is masked. -/
def closing (f : Findings) : String :=
  s!"Bytecode scan done in _ms ({f.report.classesScanned} classes, {f.graph.edges.size} edges)"

/-- Scans artifacts in order. -/
def run (artifacts : List Artifact) : Scanning σ Unit := do
  Scanning.alter (·.say .info s!"Bytecode scan: {artifacts.length} artifacts")
  let _ ← artifacts.foldlM scanArtifact {}
  Scanning.dispatch (.endScan .bytecode)
  Scanning.alter fun f => f.say .info (closing f)

end BytecodeScan

end CodeMetrics
