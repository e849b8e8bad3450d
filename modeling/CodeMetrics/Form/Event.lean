import CodeMetrics.Event
import CodeMetrics.Json.Record

/-!
# JSON forms of phases and kinds of events
-/

namespace CodeMetrics

/-- The JSON form of a phase. -/
def Phase.toJson (p : Phase) : Json := .text p.name

/-- Reads a phase. -/
def Phase.ofJson? : Json → Option Phase := Json.plainVariant? Phase.ofName?

/-- The JSON form of a kind of event. -/
def EventKind.toJson (k : EventKind) : Json := .text k.name

/-- Reads a kind of event. -/
def EventKind.ofJson? : Json → Option EventKind := Json.plainVariant? EventKind.ofName?

end CodeMetrics
