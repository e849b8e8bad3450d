import CodeMetrics.Findings

/-!
# Reactions of visitors

What a visitor may do when it is told of an event: attach measures, record superclasses and write to
the journal.  That this is all is an assumption about external visitors.  A visitor is handed the
whole state of the analysis; one that registers elements, adds dependencies, starts a scan of its own
or puts another state in its place is outside of what is described here.
-/

namespace CodeMetrics

/-- An effect of a visitor on the findings.  Visitors are assumed to have no other. -/
inductive Effect where
  /-- Attaches a measure; on an unknown handle it has no effect. -/
  | attach (handle : Handle) (name : String) (value : Measure)
  /-- Records the superclass of a type. -/
  | superclass (handle : Handle) (superclass : Option Handle)
  /-- Writes to the journal. -/
  | say (level : Level) (message : String)
deriving DecidableEq

/-- Carries out an effect. -/
def Effect.apply (f : Findings) : Effect → Findings
  | .attach h name value =>
    match f.attachMeasure h name value with
    | .ok f => f
    | .error _ => f
  | .superclass h above => f.recordSuperclass h above
  | .say level message => f.say level message

/-- The size of an analysis at one moment, and the superclass then recorded for one element. -/
structure Probe where
  elements : Nat
  vertices : Nat
  edges : Nat
  filesScanned : Nat
  classesScanned : Nat
  issues : Nat
  superclass : Option Handle
  projectKey : String
deriving DecidableEq

/-- The probe of findings, for an element if there is one. -/
def Findings.probe (f : Findings) (target : Option Handle) : Probe where
  elements := f.index.size
  vertices := f.graph.vertices.size
  edges := f.graph.edges.size
  filesScanned := f.report.filesScanned
  classesScanned := f.report.classesScanned
  issues := f.report.issues.size
  superclass := target.bind f.superclass?
  projectKey := f.config.projectKey

/-- Something that a visitor reports to whoever reads the transcript of an analysis. -/
inductive Observation where
  | saw (visitor : String) (event : Event)
  | probed (visitor : String) (probe : Probe)
deriving DecidableEq

/-- The answer of a visitor to an event. -/
structure Reaction where
  effects : List Effect := []
  observations : List Observation := []
  /-- The visitor's own words, if it failed. -/
  failure : Option String := none
deriving DecidableEq

namespace Reaction

/-- No reaction. -/
def none : Reaction := {}

/-- Attaches a metric, or fails if the element is unknown. -/
def attachMetric (f : Findings) (h : Handle) (metric : Metric) (value : Measure) : Reaction :=
  match f.attachMetric h metric value with
  | .ok _ => { effects := [.attach h metric.name value] }
  | .error e => { failure := some e.message }

end Reaction

end CodeMetrics
