import CodeMetrics.Fact

/-!
# Inputs of an analysis

A source file is a path with its declarations or the reason why it could not be parsed.  An artifact
is a path with its classes; if decoding stopped early, with the reason and the classes before it.
-/

namespace CodeMetrics

/-- Why a source file gave no declarations. -/
inductive ParseError where
  | unreadable (path reason : String)
  | malformed (path : String) (line : Nat) (message : String)
  | parser (message : String)
deriving DecidableEq

/-- The wording of a parse error. -/
def ParseError.message : ParseError → String
  | .unreadable path reason => s!"failed to read {path}: {reason}"
  | .malformed path line message => s!"syntax error in {path} at line {line}: {message}"
  | .parser message => s!"parser error: {message}"

/-- Why the decoding of an artifact stopped. -/
inductive DecodeError where
  | unreadable (path reason : String)
  | malformed (message : String)
  | unsupported (major minor : Nat)
deriving DecidableEq

/-- The wording of a decode error. -/
def DecodeError.message : DecodeError → String
  | .unreadable path reason => s!"failed to read {path}: {reason}"
  | .malformed message => s!"malformed class data: {message}"
  | .unsupported major minor => s!"unsupported class file version {major}.{minor}"

/-- A source file. -/
structure SourceFile where
  path : String
  result : Except ParseError (List Declaration)

/-- A compiled artifact. -/
structure Artifact where
  path : String
  /-- The classes decoded, in order. -/
  classes : List ClassFacts
  /-- Why there are no more of them, if decoding stopped early. -/
  error : Option DecodeError
deriving DecidableEq

end CodeMetrics
