import CodeMetrics.Element
import CodeMetrics.Journal

/-!
# The index of elements

All program units known so far, each under its own key.  Source files and compiled artifacts report
into the same index, so a registration of a known key leads to the element that is already there:

* the kinds must agree, except that a placeholder becomes a type when a type is reported for it;
* an element without an owner adopts the one that is reported, an owner is never replaced;
* an owner that is not known yet is registered as a placeholder;
* no element is owned by itself, directly or through others.

Two secondary indexes lead from a key to its element and from a kind to the elements of that kind.
-/

namespace CodeMetrics

/-! ## Errors -/

/-- Why the index refuses an operation. -/
inductive IndexError where
  | unknownElement (key : String)
  | unknownHandle (handle : Handle)
  | kindConflict (key : String) (existing requested : Kind)
deriving DecidableEq

/-- The wording of an index error. -/
def IndexError.message : IndexError → String
  | .unknownElement key => s!"unknown element: {key}"
  | .unknownHandle handle => "unknown element handle " ++ handle.text
  | .kindConflict key existing requested =>
    s!"kind conflict for {key}: registered as {existing.name}, reported as {requested.name}"

/-! ## The index and its queries -/

/-- The elements in the order of registration, with two secondary indexes. -/
structure Index where
  elements : Array Element := #[]
  byKey : Std.ExtTreeMap String Handle := ∅
  byKind : Std.ExtTreeMap Kind (Array Handle) := ∅

namespace Index

/-- The number of elements. -/
def size (ix : Index) : Nat := ix.elements.size

/-- The element of a handle. -/
def get? (ix : Index) (h : Handle) : Option Element := ix.elements[h.slot]?

/-- The handle of a key. -/
def handle? (ix : Index) (key : String) : Option Handle := ix.byKey[key]?

/-- The element of a key. -/
def find? (ix : Index) (key : String) : Option Element := (ix.handle? key).bind ix.get?

/-- The key of a handle. -/
def key? (ix : Index) (h : Handle) : Option String := (ix.get? h).map Element.key

/-- The handles of the elements of a kind. -/
def handlesOf (ix : Index) (kind : Kind) : Array Handle := ix.byKind.getD kind #[]

/-- The elements of a kind. -/
def ofKind (ix : Index) (kind : Kind) : List Element :=
  (ix.handlesOf kind).toList.filterMap ix.get?

/-- The elements that pass a test, in the order of registration. -/
def search (ix : Index) (test : Element → Bool) : List Element :=
  ix.elements.toList.filter test

/-- The elements that may depend on each other, in the order of registration. -/
def typeLevel (ix : Index) : List Element := ix.search (·.kind.isTypeLevel)

/-- The elements owned by an element. -/
def children (ix : Index) (h : Handle) : List Element :=
  match ix.get? h with
  | none => []
  | some e => e.children.filterMap ix.get?

/-- The elements of a kind owned by the element of a key. -/
def members (ix : Index) (key : String) (kind : Kind) : List Element :=
  match ix.handle? key with
  | none => []
  | some h => (ix.children h).filter (·.kind == kind)

/-- The project that was registered first. -/
def project? (ix : Index) : Option Element :=
  (ix.handlesOf .project)[0]?.bind ix.get?

/-- The owner of an element. -/
def parent? (ix : Index) (h : Handle) : Option Handle := (ix.get? h).bind Element.parent

/-- Whether `ancestor` is met within `hops` steps from `node` along the owners. -/
def meets (ix : Index) (ancestor : Handle) : Nat → Handle → Bool
  | hops, node =>
    node == ancestor ||
      match hops, ix.parent? node with
      | hops + 1, some owner => ix.meets ancestor hops owner
      | _, _ => false

/-- Whether `node` is `ancestor` or is owned by it, directly or through others.  A walk along owners
meets no element twice, so it has fewer hops than there are elements. -/
def isWithin (ix : Index) (node ancestor : Handle) : Bool :=
  ix.meets ancestor ix.size node

/-! ## Elementary changes -/

/-- Adds an element under a new key. -/
def insert (ix : Index) (key : String) (kind : Kind) : Handle × Index :=
  let h : Handle := ⟨ix.size⟩
  (h, { elements := ix.elements.push { handle := h, key := key, kind := kind }
        byKey := ix.byKey.insert key h
        byKind := ix.byKind.insert kind ((ix.handlesOf kind).push h) })

/-- Changes the element of a handle.  Where there is no such element, nothing is changed: whoever
calls this has to know that the handle is in range. -/
def modify (ix : Index) (h : Handle) (change : Element → Element) : Index :=
  { ix with elements := ix.elements.modify h.slot change }

/-- Changes the element of a handle, with the range checked. -/
def modify? (ix : Index) (h : Handle) (change : Element → Element) : Option Index :=
  if h.slot < ix.size then some (ix.modify h change) else none

/-- Makes `owner` the owner of `child`. -/
def link (ix : Index) (owner child : Handle) : Index :=
  (ix.modify child fun e => { e with parent := some owner }).modify owner fun e =>
    { e with children := e.children ++ [child] }

/-- Turns a placeholder into a type. -/
def promote (ix : Index) (h : Handle) : Index :=
  { ix.modify h fun e => { e with kind := .type } with
    byKind :=
      (ix.byKind.insert .external ((ix.handlesOf .external).filter (· != h))).insert .type
        ((ix.handlesOf .type).push h) }

/-! ## Registration -/

/-- What becomes of the owner that a registration reports. -/
inductive Adoption where
  /-- No owner is reported, or the element has one already. -/
  | none
  /-- The owner is known. -/
  | known (owner : Handle)
  /-- The owner is not known: a placeholder is registered for it. -/
  | placeholder (ownerKey : String)
  /-- The owner is owned by the element itself. -/
  | circular (ownerKey : String)
deriving DecidableEq

/-- What becomes of the owner reported for `key`. -/
def adoption (ix : Index) (key : String) (parent : Option String) : Adoption :=
  match parent.filter (· != key) with
  | none => .none
  | some ownerKey =>
    match ix.find? key, ix.handle? ownerKey with
    | none, none => .placeholder ownerKey
    | none, some owner => .known owner
    | some e, owner? =>
      if e.parent.isSome then .none
      else match owner? with
        | none => .placeholder ownerKey
        | some owner => if ix.isWithin owner e.handle then .circular ownerKey else .known owner

/-- Reconciles the kind of a registered element with a reported one. -/
def mergeKind (ix : Index) (e : Element) (requested : Kind) : Except IndexError Index :=
  match e.kind, requested with
  | .type, .external => .ok ix
  | .external, .type => .ok (ix.promote e.handle)
  | existing, requested =>
    if existing = requested then .ok ix else .error (.kindConflict e.key existing requested)

/-- Registers a key, or finds the element registered under it. -/
def register (ix : Index) (key : String) (kind : Kind) (parent : Option String) :
    Except IndexError (Handle × Index) :=
  match ix.find? key with
  | some e =>
    (ix.mergeKind e kind).map fun merged =>
      match ix.adoption key parent with
      | .none | .circular _ => (e.handle, merged)
      | .known owner => (e.handle, merged.link owner e.handle)
      | .placeholder ownerKey =>
        let (owner, extended) := merged.insert ownerKey .external
        (e.handle, extended.link owner e.handle)
  | none =>
    match ix.adoption key parent with
    | .none | .circular _ => .ok (ix.insert key kind)
    | .known owner =>
      let (h, extended) := ix.insert key kind
      .ok (h, extended.link owner h)
    | .placeholder ownerKey =>
      let (owner, withOwner) := ix.insert ownerKey .external
      let (h, extended) := withOwner.insert key kind
      .ok (h, extended.link owner h)

/-- What the journal says about a registration that is not refused. -/
def registrationNotes (ix : Index) (key : String) (parent : Option String) : List Note :=
  match ix.adoption key parent with
  | .none | .known _ => []
  | .placeholder ownerKey => [⟨.debug, s!"Materializing external owner {ownerKey}"⟩]
  | .circular ownerKey => [⟨.debug, s!"Ignoring parent {ownerKey} of {key}: ownership cycle"⟩]

/-- The element of a key, or a new placeholder for it. -/
def registerExternal (ix : Index) (key : String) : Handle × Index :=
  match ix.handle? key with
  | some h => (h, ix)
  | none => ix.insert key .external

/-- What the journal says about a placeholder. -/
def externalNotes (ix : Index) (key : String) : List Note :=
  match ix.handle? key with
  | some _ => []
  | none => [⟨.debug, s!"Materializing external placeholder {key}"⟩]

/-! ## Measures -/

/-- Attaches a measure to the element of a handle. -/
def attachTo (ix : Index) (h : Handle) (name : String) (value : Measure) :
    Except IndexError Index :=
  if h.slot < ix.size then .ok (ix.modify h (·.attach name value))
  else .error (.unknownHandle h)

/-- Attaches a measure to the element of a key. -/
def attach (ix : Index) (key name : String) (value : Measure) : Except IndexError Index :=
  match ix.handle? key with
  | some h => ix.attachTo h name value
  | none => .error (.unknownElement key)

end Index

end CodeMetrics
