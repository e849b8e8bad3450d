import CodeMetrics.ElementFilter
import CodeMetrics.Form.Config
import CodeMetrics.Form.Report
import CodeMetrics.Visitor.Rule
import CodeMetrics.Proofs.Key
import CodeMetrics.Proofs.Index.Ownership
import CodeMetrics.Proofs.Index.Registration
import CodeMetrics.Proofs.Index.History
import CodeMetrics.Proofs.Index.OwnerWalk
import CodeMetrics.Proofs.Graph.Incidence
import CodeMetrics.Proofs.Graph.Tally
import CodeMetrics.Proofs.Graph.History
import CodeMetrics.Proofs.Graph.Queries
import CodeMetrics.Proofs.Graph.Export
import CodeMetrics.Proofs.Index.Records
import CodeMetrics.Proofs.Scan.Outline
import CodeMetrics.Proofs.Scan.Deeds
import CodeMetrics.Proofs.Scan.Opening
import CodeMetrics.Proofs.Scan.Running
import CodeMetrics.Proofs.Scan.Induction
import CodeMetrics.Proofs.Scan.Members
import CodeMetrics.Proofs.Scan.Agreement
import CodeMetrics.Proofs.Scan.Following
import CodeMetrics.Proofs.Scan.Sources
import CodeMetrics.Proofs.Scan.ExportedEdges
import CodeMetrics.Proofs.Index.Layers
import CodeMetrics.Proofs.Scan.DistinctClasses
import CodeMetrics.Proofs.Scan.MeasuresByKey
import CodeMetrics.Proofs.Scan.OrderIndependence
import CodeMetrics.Proofs.Scan.Callbacks
import CodeMetrics.Proofs.Scan.Operations
import CodeMetrics.Proofs.Scan.Lineage
import CodeMetrics.Proofs.Scan.ExtensionEdges
import CodeMetrics.Proofs.Scan.Coupling
import CodeMetrics.Proofs.Scan.Safety
import CodeMetrics.Proofs.Scan.Coverage
import CodeMetrics.Proofs.Scan.Anatomy
import CodeMetrics.Proofs.Scan.FailFast
import CodeMetrics.Proofs.Scan.Abreast
import CodeMetrics.Proofs.Scan.Sifting
import CodeMetrics.Proofs.Scan.Isolation
import CodeMetrics.Proofs.Scan.Refusals
import CodeMetrics.Proofs.Scan.Story
import CodeMetrics.Proofs.Scan.Telling
import CodeMetrics.Proofs.Scan.Recounting
import CodeMetrics.Proofs.Scan.Protocol
import CodeMetrics.Proofs.Scan.Redecoding
import CodeMetrics.Proofs.Scan.Attachments
import CodeMetrics.Proofs.Scan.Growth
import CodeMetrics.Proofs.Scan.Shape
import CodeMetrics.Proofs.Form.RoundTrip
import CodeMetrics.Proofs.Index.Bare
import CodeMetrics.Proofs.Scan.Annotations
import CodeMetrics.Proofs.Chain
import CodeMetrics.Proofs.Measure.Depth
import CodeMetrics.Proofs.Index.Remeasured
import CodeMetrics.Proofs.Index.Anticipation
import CodeMetrics.Proofs.Scan.ConsistentSources
import CodeMetrics.Proofs.Scan.MethodOwners
import CodeMetrics.Proofs.Scan.ClassMeasures
import CodeMetrics.Proofs.Scan.Mentions
import CodeMetrics.Proofs.Scan.ResponseSet
import CodeMetrics.Proofs.Measure.Components
import CodeMetrics.Proofs.Scan.Cohesion
import CodeMetrics.Proofs.Scan.Repetition
import CodeMetrics.Proofs.Graph.Ledger
import CodeMetrics.Proofs.Graph.RefusedDependencies
import CodeMetrics.Proofs.Scan.SkippedClasses
import CodeMetrics.Proofs.Measure.NewMember
import CodeMetrics.Proofs.Scan.ClassScan
import CodeMetrics.Proofs.Scan.RefusedFacts
import CodeMetrics.Proofs.Scan.DroppedFacts
import CodeMetrics.Proofs.Scan.Tasks
import CodeMetrics.Proofs.Scan.RefusedTasks
