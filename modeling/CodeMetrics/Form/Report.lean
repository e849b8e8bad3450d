import CodeMetrics.Analysis
import CodeMetrics.Form.Edge
import CodeMetrics.Form.Event
import CodeMetrics.Json.Printer

/-!
# JSON forms of reports and analyses
-/

namespace CodeMetrics

/-- The JSON form of an issue: a record with the tag `issue`. -/
def Issue.toJson : Issue → Json
  | .parseFailed path message =>
    .record [("issue", .text "parse_failed"), ("path", .text path), ("message", .text message)]
  | .decodeFailed path message partialClasses =>
    .record [
      ("issue", .text "decode_failed"),
      ("path", .text path),
      ("message", .text message),
      ("partial_classes", .nat partialClasses)]
  | .kindConflict phase key existing requested =>
    .record [
      ("issue", .text "kind_conflict"),
      ("phase", phase.toJson),
      ("key", .text key),
      ("existing", existing.toJson),
      ("requested", requested.toJson)]
  | .duplicateClass path key =>
    .record [("issue", .text "duplicate_class"), ("path", .text path), ("key", .text key)]
  | .rejected phase key message =>
    .record [
      ("issue", .text "rejected"),
      ("phase", phase.toJson),
      ("key", .text key),
      ("message", .text message)]

/-- The JSON form of a report. -/
def Report.toJson (r : Report) : Json :=
  .record [
    ("files_scanned", .nat r.filesScanned),
    ("classes_scanned", .nat r.classesScanned),
    ("issues", .ofList Issue.toJson r.issues.toList)]

/-- The JSON form of an analysis: its elements, its dependencies and its report. -/
def Analysis.toJson (a : Analysis) : Json :=
  .record [
    ("elements", .ofList Element.toJson a.index.elements.toList),
    ("edges", .ofList KeyedEdge.toJson a.keyedEdges),
    ("report", a.findings.report.toJson)]

end CodeMetrics
