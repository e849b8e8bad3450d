import CodeMetrics.Journal
import Std.Data.ExtTreeSet

/-!
# Configuration of an analysis
-/

namespace CodeMetrics

/-- The options of an analysis. -/
structure Config where
  /-- The key of the project that owns packages found only in compiled code, when no source file
  reports a project. -/
  projectKey : String := "project"
  /-- The names of fields that are left out of the cohesion graph. -/
  excludedFields : Std.ExtTreeSet String := ∅
deriving DecidableEq

namespace Config

/-- Adds names of excluded fields. -/
def exclude (c : Config) (names : List String) : Config :=
  { c with excludedFields := c.excludedFields.insertMany names }

/-- Whether a field is left out of the cohesion graph. -/
def excludes (c : Config) (name : String) : Bool := c.excludedFields.contains name

/-- The message about a configuration read from a file. -/
def loadedNote (c : Config) (path : String) : Note :=
  let count := c.excludedFields.size
  ⟨.debug, s!"Loaded config from {path} ({count} LCOM4 exclusions)"⟩

/-- Why a configuration file gave no configuration. -/
inductive LoadError where
  | missing (path : String)
  | notText (path : String)
  | malformed
deriving DecidableEq

/-- The wording of a file that cannot be read; a malformed one has no wording here. -/
def LoadError.message? : LoadError → Option String
  | .missing path =>
    some s!"failed to read config {path}: No such file or directory (os error 2)"
  | .notText path => some s!"failed to read config {path}: stream did not contain valid UTF-8"
  | .malformed => none

end Config

end CodeMetrics
