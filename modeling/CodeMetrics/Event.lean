import CodeMetrics.Fact

/-!
# Scan events

A scan tells its visitors what it finds: types and methods as they are registered, the references in
method bodies, the end of a type and the end of the scan.
-/

namespace CodeMetrics

/-- The two scans of an analysis. -/
inductive Phase where
  | source
  | bytecode
deriving DecidableEq

namespace Phase

/-- Both phases, in the order in which they run. -/
def all : List Phase := [source, bytecode]

/-- The name of a phase. -/
def name : Phase → String
  | source => "source"
  | bytecode => "bytecode"

/-- The phase of a name. -/
def ofName? (s : String) : Option Phase :=
  all.find? (·.name == s)

end Phase

/-- The kinds of events. -/
inductive EventKind where
  | type
  | method
  | reference
  | leaveType
  | endScan
deriving DecidableEq

namespace EventKind

/-- All kinds of events. -/
def all : List EventKind := [type, method, reference, leaveType, endScan]

/-- The name of a kind of event. -/
def name : EventKind → String
  | type => "type"
  | method => "method"
  | reference => "reference"
  | leaveType => "leave_type"
  | endScan => "end_scan"

/-- The kind of event of a name. -/
def ofName? (s : String) : Option EventKind :=
  all.find? (·.name == s)

/-- The text of a kind of event in messages. -/
def text : EventKind → String
  | type => "visit_type"
  | method => "visit_method"
  | reference => "visit_reference"
  | leaveType => "leave_type"
  | endScan => "end_scan"

end EventKind

/-- A type that is entered or left. -/
structure TypeVisit where
  phase : Phase
  element : Handle
  key : String
  superclass : Option String := none
  interfaces : List String := []
  fields : List Field := []
deriving DecidableEq

/-- A method that was registered. -/
structure MethodVisit where
  phase : Phase
  element : Handle
  key : String
  /-- The owner, if it is known. -/
  owner : Option Handle
  signature : String
deriving DecidableEq

/-- A reference found in a method body; only compiled code has them. -/
structure ReferenceVisit where
  /-- The type whose method refers. -/
  element : Handle
  typeKey : String
  methodKey : String
  reference : Reference
deriving DecidableEq

/-- Something that a scan found. -/
inductive Event where
  | type (visit : TypeVisit)
  | method (visit : MethodVisit)
  | reference (visit : ReferenceVisit)
  | leaveType (visit : TypeVisit)
  | endScan (phase : Phase)
deriving DecidableEq

namespace Event

/-- The kind of an event. -/
def kind : Event → EventKind
  | .type _ => .type
  | .method _ => .method
  | .reference _ => .reference
  | .leaveType _ => .leaveType
  | .endScan _ => .endScan

/-- The scan that an event belongs to. -/
def phase : Event → Phase
  | .type v | .leaveType v => v.phase
  | .method v => v.phase
  | .reference _ => .bytecode
  | .endScan phase => phase

/-- The key that an event is about: the type, the method, the method that refers, or the name of the
scan that ends. -/
def key : Event → String
  | .type v | .leaveType v => v.key
  | .method v => v.key
  | .reference v => v.methodKey
  | .endScan phase => phase.name

/-- The element that an event is about; a reference is about the type that holds it. -/
def element? : Event → Option Handle
  | .type v | .leaveType v => some v.element
  | .method v => some v.element
  | .reference v => some v.element
  | .endScan _ => none

end Event

end CodeMetrics
