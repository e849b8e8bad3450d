import CodeMetrics.Element
import CodeMetrics.Key

/-!
# Facts about a program

Source files report declarations: what exists and what owns it.  Compiled artifacts report classes:
the supertypes, the members and, for each method body, the calls and field accesses in it.
-/

namespace CodeMetrics

/-! ## Source facts -/

/-- A declaration found in a source file. -/
structure Declaration where
  kind : Kind
  key : String
  /-- The key of the owner. -/
  parent : Option String
deriving DecidableEq

namespace Declaration

/-- A project, which has no owner. -/
def project (key : String) : Declaration := ⟨.project, key, none⟩

/-- A package of a project. -/
def package (key project : String) : Declaration := ⟨.package, key, some project⟩

/-- A source file. -/
def file (key parent : String) : Declaration := ⟨.file, key, some parent⟩

/-- A type. -/
def type (key : String) (parent : Option String) : Declaration := ⟨.type, key, parent⟩

/-- A method, named by its signature. -/
def method (owner signature : String) : Declaration :=
  ⟨.method, Key.member owner signature, some owner⟩

/-- A field. -/
def field (owner name : String) : Declaration :=
  ⟨.field, Key.member owner name, some owner⟩

end Declaration

/-! ## Class facts -/

/-- A field of a class. -/
structure Field where
  name : String
deriving DecidableEq

/-- A call in a method body. -/
structure Call where
  /-- Tells apart the references of one method. -/
  site : UInt32
  /-- The key of the type that owns the called method. -/
  owner : String
  signature : String
deriving DecidableEq

/-- A read or write of a field in a method body. -/
structure Access where
  /-- Tells apart the references of one method. -/
  site : UInt32
  /-- The key of the type that owns the field. -/
  owner : String
  name : String
deriving DecidableEq

/-- A reference from a method body to a member of some type. -/
inductive Reference where
  | call (call : Call)
  | access (access : Access)
deriving DecidableEq

namespace Reference

/-- The site of a reference. -/
def site : Reference → UInt32
  | .call c => c.site
  | .access a => a.site

/-- The key of the type that owns the member referred to. -/
def owner : Reference → String
  | .call c => c.owner
  | .access a => a.owner

/-- The key of the member referred to. -/
def target : Reference → String
  | .call c => Key.member c.owner c.signature
  | .access a => Key.member a.owner a.name

end Reference

/-- A method of a class. -/
structure Method where
  signature : String
  /-- The references in the body, in order. -/
  body : List Reference
deriving DecidableEq

/-- A decoded class. -/
structure ClassFacts where
  key : String
  /-- The key of the superclass; a root has none. -/
  superclass : Option String
  interfaces : List String
  fields : List Field
  methods : List Method
deriving DecidableEq

namespace ClassFacts

/-- The key of a field of the class. -/
def fieldKey (c : ClassFacts) (f : Field) : String := Key.member c.key f.name

/-- The key of a method of the class. -/
def methodKey (c : ClassFacts) (m : Method) : String := Key.member c.key m.signature

/-- All references of the class, in order. -/
def references (c : ClassFacts) : List Reference := c.methods.flatMap Method.body

end ClassFacts

end CodeMetrics
