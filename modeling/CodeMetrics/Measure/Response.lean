import CodeMetrics.Reaction

/-!
# Response set of a class

The response set of a class holds its own methods and the methods that it calls.  Its own methods
are those that source files have declared for it and those that the class declares itself; called
methods are told apart by owner and signature.  The metric is the size of the set.
-/

namespace CodeMetrics

/-- The response set of the class that is being scanned. -/
structure ResponseSet where
  type : Handle
  /-- The keys of the methods, each once. -/
  methods : List String
deriving DecidableEq

/-- Adds a method. -/
def ResponseSet.insert (s : ResponseSet) (key : String) : ResponseSet :=
  { s with methods := s.methods.insert key }

/-- Computes the response set of each class. -/
structure ResponseVisitor where
  /-- The response set under way. -/
  current : Option ResponseSet := none
deriving DecidableEq

namespace ResponseVisitor

/-- Adds a method to the response set of a type, if that is the one under way. -/
def add (v : ResponseVisitor) (type : Option Handle) (key : String) : ResponseVisitor :=
  ⟨v.current.map fun s => if type = some s.type then s.insert key else s⟩

/-- The answer to an event. -/
def react (v : ResponseVisitor) (f : Findings) : Event → ResponseVisitor × Reaction
  | .type visit =>
    if visit.phase = .bytecode then
      let declared := (f.index.members visit.key .method).map Element.key
      (⟨some ⟨visit.element, declared.eraseDups⟩⟩, .none)
    else (v, .none)
  | .method visit =>
    (if visit.phase = .bytecode then v.add visit.owner visit.key else v, .none)
  | .reference visit =>
    match visit.reference with
    | .call _ => (v.add (some visit.element) visit.reference.target, .none)
    | .access _ => (v, .none)
  | .leaveType visit =>
    match v.current with
    | some s =>
      if s.type = visit.element then
        (⟨none⟩, .attachMetric f visit.element .rfc (.ofCount s.methods.length))
      else (⟨none⟩, .none)
    | none => (v, .none)
  | .endScan _ => (v, .none)

end ResponseVisitor

end CodeMetrics
