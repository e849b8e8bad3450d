import CodeMetrics.Event
import CodeMetrics.Model

/-!
# The scan report

Malformed inputs and facts that do not fit the model never stop an analysis.  They are collected as
issues, next to the numbers of files and classes that were scanned.
-/

namespace CodeMetrics

/-- Something that a scan had to leave out. -/
inductive Issue where
  /-- A source file could not be parsed. -/
  | parseFailed (path message : String)
  /-- An artifact could be decoded in part only. -/
  | decodeFailed (path message : String) (partialClasses : Nat)
  /-- A fact reports a kind other than the registered one. -/
  | kindConflict (phase : Phase) (key : String) (existing requested : Kind)
  /-- A class was decoded a second time. -/
  | duplicateClass (path key : String)
  /-- A fact does not fit the model. -/
  | rejected (phase : Phase) (key message : String)
deriving DecidableEq

namespace Issue

/-- The issue of a fact for `key` that the index refused. -/
def ofIndexError (phase : Phase) (key : String) : IndexError → Issue
  | .kindConflict conflicting existing requested =>
    .kindConflict phase conflicting existing requested
  | e => .rejected phase key e.message

/-- The issue of a dependency that touches `key` and was refused. -/
def ofGraphError (phase : Phase) (key : String) : GraphError → Issue
  | .index e => ofIndexError phase key e
  | e => .rejected phase key e.message

/-- The wording of an issue. -/
def message : Issue → String
  | .parseFailed path message => s!"Skipping source file {path}: {message}"
  | .decodeFailed path message partialClasses =>
    s!"Failed to decode {path} ({partialClasses} classes kept): {message}"
  | .kindConflict phase key existing requested =>
    s!"Dropping {phase.name} fact for {key}: registered as {existing.name}, " ++
      s!"reported as {requested.name}"
  | .duplicateClass path key => s!"Ignoring class {key} in {path}: already scanned"
  | .rejected phase key message => s!"Dropping {phase.name} fact for {key}: {message}"

/-- What the journal says about an issue. -/
def note (i : Issue) : Note := ⟨.warn, i.message⟩

/-- Whether a source file was skipped. -/
def isParseFailure : Issue → Bool
  | .parseFailed .. => true
  | _ => false

/-- Whether an artifact was decoded in part only. -/
def isDecodeFailure : Issue → Bool
  | .decodeFailed .. => true
  | _ => false

end Issue

/-- Counters and issues of an analysis. -/
structure Report where
  filesScanned : Nat := 0
  classesScanned : Nat := 0
  /-- The issues in the order in which they arose. -/
  issues : Array Issue := #[]
deriving DecidableEq

namespace Report

/-- Adds an issue. -/
def record (r : Report) (i : Issue) : Report :=
  { r with issues := r.issues.push i }

/-- Whether nothing had to be left out. -/
def isClean (r : Report) : Bool := r.issues.isEmpty

/-- The number of source files that could not be parsed. -/
def parseFailures (r : Report) : Nat := r.issues.countP Issue.isParseFailure

/-- The number of artifacts that could not be decoded to their end. -/
def decodeFailures (r : Report) : Nat := r.issues.countP Issue.isDecodeFailure

end Report

end CodeMetrics
