import CodeMetrics.Config
import CodeMetrics.Json.Printer
import CodeMetrics.Json.Reader
import CodeMetrics.Json.Record

/-!
# JSON form of the configuration

Options that are left out take their defaults.
-/

namespace CodeMetrics.Config

/-- The JSON form of a configuration. -/
def toJson (c : Config) : Json :=
  .record [
    ("project_key", .text c.projectKey),
    ("fields_to_exclude_from_lcom4", .ofList .text c.excludedFields.toList)]

/-- Reads a set of texts. -/
def textSet? (value : Json) : Option (Std.ExtTreeSet String) :=
  (Json.list? Json.text? value).map (Std.ExtTreeSet.ofList ·)

/-- Reads a configuration. -/
def ofJson? (value : Json) : Option Config := do
  match ← value.someFields? ["project_key", "fields_to_exclude_from_lcom4"] with
  | [projectKey, excludedFields] =>
    let standard : Config := {}
    return {
      projectKey := ← Json.defaulted? standard.projectKey Json.text? projectKey
      excludedFields := ← Json.defaulted? standard.excludedFields textSet? excludedFields }
  | _ => none

/-- Reads a configuration from a text. -/
def parse? (text : String) : Option Config :=
  (Json.parse? text).bind ofJson?

/-- Reads a configuration from a file, given its contents if there is such a file. -/
def load (path : String) (contents : Option ByteArray) : Except LoadError Config :=
  match contents with
  | none => .error (.missing path)
  | some bytes =>
    match String.fromUTF8? bytes with
    | none => .error (.notText path)
    | some text =>
      match parse? text with
      | none => .error .malformed
      | some config => .ok config

end CodeMetrics.Config
