import CodeMetrics.Input
import CodeMetrics.Session

/-!
# The source scan

The declarations of the source files are registered in order.  A file that could not be parsed is
skipped, and a declaration that does not fit the index is dropped; both become issues.  Visitors are
told of each type and each method that was registered.
-/

namespace CodeMetrics

/-- Registers the element of a fact.  A refusal becomes an issue. -/
def Findings.declareFact (f : Findings) (phase : Phase) (key : String) (kind : Kind)
    (parent : Option String) : Option Handle × Findings :=
  match f.declare key kind parent with
  | (.ok h, f) => (some h, f)
  | (.error e, f) => (none, f.record (.ofIndexError phase key e))

namespace SourceScan

variable {σ : Type}

/-- The owner of a method: the one in the index, or else the one that its key names. -/
def methodOwner? (ix : Index) (h : Handle) (key : String) : Option Handle :=
  (ix.parent? h).or ((Key.owner? key).bind ix.handle?)

/-- What visitors are told of a declaration. -/
def event? (ix : Index) (h : Handle) (d : Declaration) : Option Event :=
  match d.kind with
  | .type => some (.type { phase := .source, element := h, key := d.key })
  | .method =>
    some (.method
      { phase := .source
        element := h
        key := d.key
        owner := methodOwner? ix h d.key
        signature := (Key.name? d.key).getD d.key })
  | _ => none

/-- Applies one declaration. -/
def applyDeclaration (d : Declaration) : Scanning σ Unit := do
  match ← Scanning.edit (·.declareFact .source d.key d.kind d.parent) with
  | none => pure ()
  | some h =>
    match event? (← Scanning.findings).index h d with
    | none => pure ()
    | some e => Scanning.dispatch e

/-- Counts a file as scanned. -/
def countFile (f : Findings) : Findings :=
  { f with report := { f.report with filesScanned := f.report.filesScanned + 1 } }

/-- Scans one file. -/
def scanFile (file : SourceFile) : Scanning σ Unit := do
  match file.result with
  | .error e => Scanning.alter (·.record (.parseFailed file.path e.message))
  | .ok declarations =>
    Scanning.alter (·.say .debug s!"{file.path}: {declarations.length} facts")
    declarations.forM applyDeclaration
    Scanning.alter countFile

/-- The message at the end of the scan; the time it took is masked. -/
def closing (f : Findings) : String :=
  s!"Source scan done in _ms ({f.index.size} elements, {f.report.parseFailures} files skipped)"

/-- Scans source files in order. -/
def run (files : List SourceFile) : Scanning σ Unit := do
  Scanning.alter (·.say .info s!"Source scan: {files.length} files")
  files.forM scanFile
  Scanning.dispatch (.endScan .source)
  Scanning.alter fun f => f.say .info (closing f)

end SourceScan

end CodeMetrics
