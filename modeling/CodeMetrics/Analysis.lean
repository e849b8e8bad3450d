import CodeMetrics.Measure.Coupling
import CodeMetrics.Measure.Inheritance
import CodeMetrics.BytecodeScan

/-!
# Analyses

A whole run: the source scan, the bytecode scan, then the metrics that need the complete model.  The
response set and the cohesion are computed by visitors of the bytecode scan, which are called before
any external visitor.
-/

namespace CodeMetrics

/-- The result of a finished run. -/
structure Analysis where
  findings : Findings

namespace Analysis

variable {σ : Type}

/-- The visitors of the analysis itself. -/
def ownVisitors (config : Config) : List (Subscriber σ) :=
  [⟨.response {}, .bytecode⟩, ⟨.cohesion { excluded := config.excludedFields }, .bytecode⟩]

/-- An external visitor with its subscription. -/
def externalSubscriber (v : External σ × Subscription) : Subscriber σ :=
  ⟨.external v.1, v.2⟩

/-- The session at the start of a run. -/
def start (config : Config) (visitors : List (External σ × Subscription)) : Session σ where
  findings := { config := config }
  roster :=
    (ownVisitors config ++ visitors.map externalSubscriber).toArray

/-- The metrics that need the complete model. -/
def measure (f : Findings) : Except IndexError Findings := do
  let f := f.withModel f.toModel.addTypes
  let inheritance := f.inheritance
  let f ← f.attachDepths inheritance
  let f ← f.attachChildCounts inheritance
  let f ← f.attachCouplings
  return f.say .info "Post-pass metrics done in _ms"

/-- The message at the end of a run; the time it took is masked. -/
def closing (f : Findings) : String :=
  s!"Analysis done in _ms: {f.index.size} elements, {f.graph.vertices.size} vertices, " ++
    s!"{f.graph.edges.size} edges, {f.report.issues.size} issues"

/-- Applies the metrics that need the complete model. -/
def finish : Scanning σ Unit := do
  match measure (← Scanning.findings) with
  | .error e => throw (.index e)
  | .ok f => Scanning.alter fun _ => f.say .info (closing f)

/-- The whole run as a computation over a session. -/
def scanning (sources : List SourceFile) (artifacts : List Artifact) : Scanning σ Unit := do
  SourceScan.run sources
  BytecodeScan.run artifacts
  finish

/-- A run, with the session it leaves behind. -/
def runSession (config : Config) (visitors : List (External σ × Subscription))
    (sources : List SourceFile) (artifacts : List Artifact) : Except RunError Unit × Session σ :=
  (scanning sources artifacts).runOn (start config visitors)

/-- The analysis of a program. -/
def run (config : Config) (visitors : List (External σ × Subscription))
    (sources : List SourceFile) (artifacts : List Artifact) : Except RunError Analysis :=
  let (result, session) := runSession config visitors sources artifacts
  result.map fun () => ⟨session.findings⟩

/-! ## Queries by key -/

/-- The model of the program. -/
def model (a : Analysis) : Model := a.findings.toModel

/-- The index of the program's elements. -/
def index (a : Analysis) : Index := a.findings.index

/-- The dependency graph of the program. -/
def graph (a : Analysis) : Graph := a.findings.graph

/-- The element of a key. -/
def find? (a : Analysis) (key : String) : Option Element := a.index.find? key

/-- A metric of the element of a key. -/
def metric? (a : Analysis) (key : String) (metric : Metric) : Option Measure :=
  (a.find? key).bind (·.metric? metric)

/-- A measure of the element of a key. -/
def measure? (a : Analysis) (key name : String) : Option Measure :=
  (a.find? key).bind (·.measure? name)

/-- Whether any dependency leads from one key to another. -/
def hasEdge (a : Analysis) (source target : String) : Bool :=
  match a.index.handle? source, a.index.handle? target with
  | some s, some t => a.graph.hasEdge s t
  | _, _ => false

/-- The dependency of one kind from one key to another. -/
def edge? (a : Analysis) (source target : String) (kind : EdgeKind) : Option Edge :=
  match a.index.handle? source, a.index.handle? target with
  | some s, some t => a.graph.edge? s t kind
  | _, _ => none

/-- The dependencies from one key to another. -/
def between (a : Analysis) (source target : String) : List Edge :=
  match a.index.handle? source, a.index.handle? target with
  | some s, some t => a.graph.between s t
  | _, _ => []

/-- The elements that are vertices of the graph. -/
def vertices (a : Analysis) : List Element :=
  a.graph.vertices.toList.filterMap a.index.get?

/-- The dependencies of the element of a key. -/
def outgoing (a : Analysis) (key : String) : List Edge :=
  ((a.index.handle? key).map a.graph.outgoing).getD []

/-- The dependencies on the element of a key. -/
def incoming (a : Analysis) (key : String) : List Edge :=
  ((a.index.handle? key).map a.graph.incoming).getD []

/-- The dependencies that touch one of the given keys; unknown keys are ignored. -/
def touching (a : Analysis) (keys : List String) : List Edge :=
  a.graph.touching (keys.filterMap a.index.handle?)

/-- All dependencies, by key. -/
def keyedEdges (a : Analysis) : List KeyedEdge := a.graph.keyedEdges a.index

end Analysis

end CodeMetrics
