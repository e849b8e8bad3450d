/-!
# The journal

What an analysis says about its own work: a list of messages, each with a level.
-/

namespace CodeMetrics

/-- How important a message is. -/
inductive Level where
  | error
  | warn
  | info
  | debug
deriving DecidableEq

/-- The name of a level. -/
def Level.name : Level → String
  | error => "ERROR"
  | warn => "WARN"
  | info => "INFO"
  | debug => "DEBUG"

/-- A message of the journal. -/
structure Note where
  level : Level
  message : String
deriving DecidableEq

/-- A message with its level in front. -/
def Note.text (n : Note) : String :=
  n.level.name ++ " " ++ n.message

/-- The messages so far, in order. -/
abbrev Journal : Type := Array Note

end CodeMetrics
