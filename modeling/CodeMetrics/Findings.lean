import CodeMetrics.Config
import CodeMetrics.Report

/-!
# Findings

What an analysis has established so far: the model, the superclass of every class it has scanned,
and the report.  Scans change the findings; visitors see them and may attach to them.
-/

namespace CodeMetrics

/-- The state of an analysis that visitors can see. -/
structure Findings extends Model where
  config : Config := {}
  /-- The superclass of every scanned class; a root has none. -/
  superclasses : Std.ExtTreeMap Handle (Option Handle) := ∅
  report : Report := {}

namespace Findings

/-- Findings with another model. -/
def withModel (f : Findings) (m : Model) : Findings := { f with toModel := m }

/-- Adds a message to the journal. -/
def say (f : Findings) (level : Level) (message : String) : Findings :=
  f.withModel (f.toModel.note [⟨level, message⟩])

/-- Adds an issue to the report and to the journal. -/
def record (f : Findings) (i : Issue) : Findings :=
  { f.withModel (f.toModel.note [i.note]) with report := f.report.record i }

/-- Records the superclass of a type. -/
def recordSuperclass (f : Findings) (h : Handle) (superclass : Option Handle) : Findings :=
  { f with superclasses := f.superclasses.insert h superclass }

/-- The recorded superclass; a root and a type that was not scanned have none. -/
def superclass? (f : Findings) (h : Handle) : Option Handle :=
  f.superclasses[h]?.join

/-- Registers an element. -/
def declare (f : Findings) (key : String) (kind : Kind) (parent : Option String) :
    Except IndexError Handle × Findings :=
  let (r, m) := f.toModel.register key kind parent
  (r, f.withModel m)

/-- Attaches a measure. -/
def attachMeasure (f : Findings) (h : Handle) (name : String) (value : Measure) :
    Except IndexError Findings :=
  (f.index.attachTo h name value).map fun index => { f with index := index }

/-- Attaches a metric. -/
def attachMetric (f : Findings) (h : Handle) (metric : Metric) (value : Measure) :
    Except IndexError Findings :=
  f.attachMeasure h metric.name value

/-- Counts a dependency that the bytecode scan found.  A refusal becomes an issue for the target.
Tells whether the dependency was accepted. -/
def depend (f : Findings) (source target : String) (kind : EdgeKind) : Bool × Findings :=
  let (r, m) := f.toModel.addEdge source target kind
  match r with
  | .ok _ => (true, f.withModel m)
  | .error e => (false, (f.withModel m).record (.ofGraphError .bytecode target e))

/-- The key of the project that owns packages; without a project, the configured one is
registered. -/
def ensureProject (f : Findings) : Except IndexError String × Findings :=
  match f.index.project? with
  | some e => (.ok e.key, f)
  | none =>
    let (r, f) := f.declare f.config.projectKey .project none
    (r.map fun _ => f.config.projectKey, f)

end Findings

end CodeMetrics
