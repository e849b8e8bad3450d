import CodeMetrics.Model
import Mathlib.Logic.Relation

/-!
# What a change does to the index

Every operation on the index is a chain of four elementary changes: a new element is inserted, a
placeholder is promoted to a type, an orphan is linked to an owner, a measure is attached.  This
module says what each of them does, and what it leaves alone.

An index is seen through what it says about one handle: the key, the kind, the owner, the children
and the measures of its element.  `Index.Move` is the relation of one elementary change, with the
conditions under which the operations make it; `Index.Moves` is a chain of them.  Every invariant of
the index is an invariant of `Index.Move`.
-/

namespace CodeMetrics

namespace Index

/-! ## What an index says about a handle -/

/-- The kind of a handle. -/
def kind? (ix : Index) (h : Handle) : Option Kind := (ix.get? h).map Element.kind

/-- The children of a handle; an unknown handle has none. -/
def childrenOf (ix : Index) (h : Handle) : List Handle :=
  ((ix.get? h).map Element.children).getD []

/-- The measures of a handle; an unknown handle has none. -/
def measuresOf (ix : Index) (h : Handle) : Std.ExtTreeMap String Measure :=
  ((ix.get? h).map Element.measures).getD ∅

/-- Whether a handle belongs to an element. -/
def Knows (ix : Index) (h : Handle) : Prop := h.slot < ix.size

/-- A handle is known exactly if it leads to an element.  So "in range" and "there is an element"
can be exchanged for each other. -/
theorem knows_iff_get? {ix : Index} {h : Handle} : ix.Knows h ↔ ∃ e, ix.get? h = some e := by
  constructor
  · intro known
    have inside : h.slot < ix.elements.size := known
    exact ⟨ix.elements[h.slot], Array.getElem?_eq_getElem inside⟩
  · rintro ⟨e, found⟩
    exact (Array.getElem?_eq_some_iff.mp found).1

theorem Knows.of_get? {ix : Index} {h : Handle} {e : Element} (found : ix.get? h = some e) :
    ix.Knows h :=
  knows_iff_get?.mpr ⟨e, found⟩

/-- A handle that leads to no element is out of range, and the other way round. -/
theorem get?_eq_none_iff {ix : Index} {h : Handle} : ix.get? h = none ↔ ¬ ix.Knows h := by
  rw [knows_iff_get?, Option.eq_none_iff_forall_ne_some, not_exists]

theorem key?_of_get? {ix : Index} {h : Handle} {e : Element} (found : ix.get? h = some e) :
    ix.key? h = some e.key := by
  simp [key?, found]

theorem kind?_of_get? {ix : Index} {h : Handle} {e : Element} (found : ix.get? h = some e) :
    ix.kind? h = some e.kind := by
  simp [kind?, found]

theorem parent?_of_get? {ix : Index} {h : Handle} {e : Element} (found : ix.get? h = some e) :
    ix.parent? h = e.parent := by
  simp [parent?, found]

theorem childrenOf_of_get? {ix : Index} {h : Handle} {e : Element} (found : ix.get? h = some e) :
    ix.childrenOf h = e.children := by
  simp [childrenOf, found]

theorem measuresOf_of_get? {ix : Index} {h : Handle} {e : Element} (found : ix.get? h = some e) :
    ix.measuresOf h = e.measures := by
  simp [measuresOf, found]

/-- A known handle has a key, and nothing else has one.  The key is the view of an element that all
invariants of the index speak about. -/
theorem knows_iff_key? {ix : Index} {h : Handle} : ix.Knows h ↔ ∃ key, ix.key? h = some key := by
  rw [knows_iff_get?]
  constructor
  · rintro ⟨e, found⟩
    exact ⟨e.key, key?_of_get? found⟩
  · rintro ⟨key, named⟩
    obtain ⟨e, found, -⟩ := Option.map_eq_some_iff.mp named
    exact ⟨e, found⟩

theorem Knows.of_key? {ix : Index} {h : Handle} {key : String} (named : ix.key? h = some key) :
    ix.Knows h :=
  knows_iff_key?.mpr ⟨key, named⟩

/-- A known handle has a kind, and nothing else has one. -/
theorem knows_iff_kind? {ix : Index} {h : Handle} :
    ix.Knows h ↔ ∃ kind, ix.kind? h = some kind := by
  rw [knows_iff_get?]
  constructor
  · rintro ⟨e, found⟩
    exact ⟨e.kind, kind?_of_get? found⟩
  · rintro ⟨kind, is⟩
    obtain ⟨e, found, -⟩ := Option.map_eq_some_iff.mp is
    exact ⟨e, found⟩

theorem Knows.of_kind? {ix : Index} {h : Handle} {kind : Kind} (is : ix.kind? h = some kind) :
    ix.Knows h :=
  knows_iff_kind?.mpr ⟨kind, is⟩

/-- What has an owner is there.  Of the owner itself this says nothing; that is a matter of the
invariant. -/
theorem Knows.of_parent? {ix : Index} {h owner : Handle} (owned : ix.parent? h = some owner) :
    ix.Knows h := by
  obtain ⟨e, found, -⟩ := Option.bind_eq_some_iff.mp owned
  exact .of_get? found

/-- The handle of the next element is not known yet. -/
theorem not_knows_size (ix : Index) : ¬ ix.Knows ⟨ix.size⟩ := Nat.lt_irrefl _

/-- The next handle to be given out differs from all handles that are known, so an insertion changes
nothing about them. -/
theorem Knows.ne_size {ix : Index} {h : Handle} (known : ix.Knows h) : h ≠ ⟨ix.size⟩ := by
  rintro rfl
  exact not_knows_size ix known

/-! ## Insertion -/

section Insert

variable (ix : Index) (key : String) (kind : Kind) (h : Handle)

@[simp] theorem size_insert : (ix.insert key kind).2.size = ix.size + 1 := by
  simp [insert, size]

/-- An insertion adds one element, at the next handle, with neither owner nor children nor
measures.  What the other handles lead to stays as it is. -/
theorem get?_insert :
    (ix.insert key kind).2.get? h =
      if h = ⟨ix.size⟩ then some { handle := ⟨ix.size⟩, key := key, kind := kind }
      else ix.get? h := by
  obtain ⟨slot⟩ := h
  simp only [insert, get?, Array.getElem?_push, Handle.mk.injEq, size]

/-- After an insertion one more handle is known, which is the one that was given out. -/
theorem knows_insert : (ix.insert key kind).2.Knows h ↔ ix.Knows h ∨ h = ⟨ix.size⟩ := by
  obtain ⟨slot⟩ := h
  simp only [Knows, size_insert, Handle.mk.injEq]
  omega

/-- The new key leads to the new handle.  An old entry for the same key would be replaced, which is
why keys are looked up before they are inserted. -/
@[simp] theorem handle?_insert (k : String) :
    (ix.insert key kind).2.handle? k = if key = k then some ⟨ix.size⟩ else ix.handle? k := by
  simp [insert, handle?, Std.ExtTreeMap.getElem?_insert]

@[simp] theorem key?_insert :
    (ix.insert key kind).2.key? h = if h = ⟨ix.size⟩ then some key else ix.key? h := by
  unfold key?
  rw [get?_insert]
  split <;> rfl

@[simp] theorem kind?_insert :
    (ix.insert key kind).2.kind? h = if h = ⟨ix.size⟩ then some kind else ix.kind? h := by
  unfold kind?
  rw [get?_insert]
  split <;> rfl

/-- A new element has no owner, like a handle that is not known. -/
@[simp] theorem parent?_insert : (ix.insert key kind).2.parent? h = ix.parent? h := by
  unfold parent?
  rw [get?_insert]
  split
  · next new => rw [new, get?_eq_none_iff.mpr (not_knows_size ix)]; rfl
  · rfl

/-- A new element has no children, so an insertion leaves all lists of children alone. -/
@[simp] theorem childrenOf_insert : (ix.insert key kind).2.childrenOf h = ix.childrenOf h := by
  unfold childrenOf
  rw [get?_insert]
  split
  · next new => rw [new, get?_eq_none_iff.mpr (not_knows_size ix)]; rfl
  · rfl

/-- A new element has no measures, so an insertion leaves all measures alone. -/
@[simp] theorem measuresOf_insert : (ix.insert key kind).2.measuresOf h = ix.measuresOf h := by
  unfold measuresOf
  rw [get?_insert]
  split
  · next new => rw [new, get?_eq_none_iff.mpr (not_knows_size ix)]; rfl
  · rfl

/-- The new handle comes last among those of its kind. -/
@[simp] theorem handlesOf_insert (k : Kind) :
    (ix.insert key kind).2.handlesOf k =
      if kind = k then (ix.handlesOf k).push ⟨ix.size⟩ else ix.handlesOf k := by
  unfold handlesOf insert
  simp only [Std.ExtTreeMap.getD_insert, Std.LawfulEqOrd.compare_eq_iff_eq]
  split
  · next same => rw [same]; rfl
  · rfl

end Insert

/-! ## Changing one element -/

section Modify

variable (ix : Index) (g h : Handle) {change : Element → Element}

@[simp] theorem size_modify : (ix.modify g change).size = ix.size := by
  simp [modify, size]

/-- Changing one element leaves all others as they are.  A change at an unknown handle is no change
at all, since there is nothing to map. -/
theorem get?_modify :
    (ix.modify g change).get? h = (ix.get? h).map fun e => if h = g then change e else e := by
  obtain ⟨slot⟩ := h
  obtain ⟨changed⟩ := g
  simp only [modify, get?, Array.getElem?_modify, Handle.mk.injEq]
  by_cases same : changed = slot
  · simp [same]
  · simp [same, Ne.symm same]

/-- A change that keeps a feature of every element keeps it at every handle. -/
theorem map_get?_modify {β : Type} {feature : Element → β}
    (kept : ∀ e, feature (change e) = feature e) :
    ((ix.modify g change).get? h).map feature = (ix.get? h).map feature := by
  rw [get?_modify, Option.map_map]
  congr 1
  funext e
  simp only [Function.comp_apply]
  split
  · exact kept e
  · rfl

/-- A change that keeps the key of every element is not seen through the keys.  The same holds of
each of the other views, below. -/
theorem key?_modify (kept : ∀ e, (change e).key = e.key) :
    (ix.modify g change).key? h = ix.key? h :=
  map_get?_modify ix g h kept

theorem kind?_modify (kept : ∀ e, (change e).kind = e.kind) :
    (ix.modify g change).kind? h = ix.kind? h :=
  map_get?_modify ix g h kept

theorem parent?_modify (kept : ∀ e, (change e).parent = e.parent) :
    (ix.modify g change).parent? h = ix.parent? h := by
  have joined (x : Option Element) : x.bind Element.parent = (x.map Element.parent).join := by
    cases x <;> rfl
  unfold parent?
  rw [joined, joined, map_get?_modify ix g h kept]

theorem childrenOf_modify (kept : ∀ e, (change e).children = e.children) :
    (ix.modify g change).childrenOf h = ix.childrenOf h :=
  congrArg (·.getD []) (map_get?_modify ix g h kept)

theorem measuresOf_modify (kept : ∀ e, (change e).measures = e.measures) :
    (ix.modify g change).measuresOf h = ix.measuresOf h :=
  congrArg (·.getD ∅) (map_get?_modify ix g h kept)

end Modify

/-! ## Promotion -/

section Promote

variable (ix : Index) (g h : Handle)

@[simp] theorem size_promote : (ix.promote g).size = ix.size := size_modify ix g

/-- A promotion changes the kind of one element and nothing else about any of them. -/
theorem get?_promote :
    (ix.promote g).get? h =
      (ix.get? h).map fun e => if h = g then { e with kind := .type } else e :=
  get?_modify ix g h

/-- A promotion leaves the table of keys alone: what was found by a key before is found by it
afterwards. -/
@[simp] theorem handle?_promote (key : String) : (ix.promote g).handle? key = ix.handle? key := rfl

@[simp] theorem key?_promote : (ix.promote g).key? h = ix.key? h :=
  key?_modify ix g h fun _ => rfl

@[simp] theorem parent?_promote : (ix.promote g).parent? h = ix.parent? h :=
  parent?_modify ix g h fun _ => rfl

@[simp] theorem childrenOf_promote : (ix.promote g).childrenOf h = ix.childrenOf h :=
  childrenOf_modify ix g h fun _ => rfl

@[simp] theorem measuresOf_promote : (ix.promote g).measuresOf h = ix.measuresOf h :=
  measuresOf_modify ix g h fun _ => rfl

/-- What is promoted is a type from then on. -/
theorem kind?_promote_self (known : ix.Knows g) : (ix.promote g).kind? g = some .type := by
  obtain ⟨e, found⟩ := knows_iff_get?.mp known
  simp [kind?, get?_promote, found]

/-- A promotion is about one handle; all others keep their kind. -/
theorem kind?_promote_of_ne (other : h ≠ g) : (ix.promote g).kind? h = ix.kind? h := by
  unfold kind?
  rw [get?_promote]
  simp [other]

/-- A promoted handle leaves the placeholders and comes last among the types.  The lists of the
other kinds stay as they are. -/
@[simp] theorem handlesOf_promote (kind : Kind) :
    (ix.promote g).handlesOf kind =
      if kind = .type then (ix.handlesOf .type).push g
      else if kind = .external then (ix.handlesOf .external).filter (· != g)
      else ix.handlesOf kind := by
  unfold handlesOf promote
  simp only [Std.ExtTreeMap.getD_insert, Std.LawfulEqOrd.compare_eq_iff_eq, eq_comm (a := kind)]
  rfl

end Promote

/-! ## Linking -/

section Link

variable (ix : Index) (owner child h : Handle)

@[simp] theorem size_link : (ix.link owner child).size = ix.size := by
  simp [link]

/-- A link sets the owner of the child and appends the child to the children of the owner.  Both may
be the same element, and then both changes are made to it. -/
theorem get?_link :
    (ix.link owner child).get? h = (ix.get? h).map fun e =>
      { e with
        parent := if h = child then some owner else e.parent
        children := if h = owner then e.children ++ [child] else e.children } := by
  unfold link
  rw [get?_modify, get?_modify, Option.map_map]
  congr 1
  funext e
  simp only [Function.comp_apply]
  split <;> split <;> rfl

/-- A link leaves the table of keys alone. -/
@[simp] theorem handle?_link (key : String) :
    (ix.link owner child).handle? key = ix.handle? key := rfl

/-- A link leaves the lists of the kinds alone: no element changes its kind by getting an owner. -/
@[simp] theorem handlesOf_link (kind : Kind) :
    (ix.link owner child).handlesOf kind = ix.handlesOf kind := rfl

@[simp] theorem key?_link : (ix.link owner child).key? h = ix.key? h := by
  unfold key?
  rw [get?_link, Option.map_map]
  rfl

@[simp] theorem kind?_link : (ix.link owner child).kind? h = ix.kind? h := by
  unfold kind?
  rw [get?_link, Option.map_map]
  rfl

@[simp] theorem measuresOf_link : (ix.link owner child).measuresOf h = ix.measuresOf h := by
  unfold measuresOf
  rw [get?_link, Option.map_map]
  rfl

/-- After a link the child has the owner it was linked to, if the child is there at all. -/
theorem parent?_link_self (known : ix.Knows child) :
    (ix.link owner child).parent? child = some owner := by
  obtain ⟨e, found⟩ := knows_iff_get?.mp known
  simp [parent?, get?_link, found]

/-- A link gives an owner to the child only. -/
theorem parent?_link_of_ne (other : h ≠ child) :
    (ix.link owner child).parent? h = ix.parent? h := by
  unfold parent?
  rw [get?_link]
  cases ix.get? h with
  | none => rfl
  | some e => simp [other]

/-- After a link the child comes last among the children of its owner. -/
theorem childrenOf_link_self (known : ix.Knows owner) :
    (ix.link owner child).childrenOf owner = ix.childrenOf owner ++ [child] := by
  obtain ⟨e, found⟩ := knows_iff_get?.mp known
  simp [childrenOf, get?_link, found]

/-- A link changes the children of the owner only. -/
theorem childrenOf_link_of_ne (other : h ≠ owner) :
    (ix.link owner child).childrenOf h = ix.childrenOf h := by
  unfold childrenOf
  rw [get?_link]
  cases ix.get? h with
  | none => rfl
  | some e => simp [other]

end Link

/-! ## Attaching -/

section Attach

variable (ix : Index) (g h : Handle) (name : String) (value : Measure)

/-- The index with one more measure at the element of a handle, if there is one. -/
def measured : Index := ix.modify g (·.attach name value)

@[simp] theorem size_measured : (ix.measured g name value).size = ix.size := size_modify ix g

/-- Attaching a measure changes one element, and nothing but the measures of it. -/
theorem get?_measured :
    (ix.measured g name value).get? h =
      (ix.get? h).map fun e => if h = g then e.attach name value else e :=
  get?_modify ix g h

/-- Measures are not seen through the table of keys. -/
@[simp] theorem handle?_measured (key : String) :
    (ix.measured g name value).handle? key = ix.handle? key := rfl

/-- Measures are not seen through the lists of the kinds. -/
@[simp] theorem handlesOf_measured (kind : Kind) :
    (ix.measured g name value).handlesOf kind = ix.handlesOf kind := rfl

@[simp] theorem key?_measured : (ix.measured g name value).key? h = ix.key? h :=
  key?_modify ix g h fun _ => rfl

@[simp] theorem kind?_measured : (ix.measured g name value).kind? h = ix.kind? h :=
  kind?_modify ix g h fun _ => rfl

@[simp] theorem parent?_measured : (ix.measured g name value).parent? h = ix.parent? h :=
  parent?_modify ix g h fun _ => rfl

@[simp] theorem childrenOf_measured :
    (ix.measured g name value).childrenOf h = ix.childrenOf h :=
  childrenOf_modify ix g h fun _ => rfl

/-- A measure that is attached replaces an earlier one of the same name and leaves those of other
names alone. -/
theorem measuresOf_measured_self (known : ix.Knows g) :
    (ix.measured g name value).measuresOf g = (ix.measuresOf g).insert name value := by
  obtain ⟨e, found⟩ := knows_iff_get?.mp known
  simp [measuresOf, get?_measured, found, Element.attach]

/-- A measure is attached to one element; the measures of all others stay as they are. -/
theorem measuresOf_measured_of_ne (other : h ≠ g) :
    (ix.measured g name value).measuresOf h = ix.measuresOf h := by
  unfold measuresOf
  rw [get?_measured]
  cases ix.get? h with
  | none => rfl
  | some e => simp [other]

end Attach

/-! ## Moves -/

/-- `owner` is the owner of `child`. -/
def Owns (ix : Index) (owner child : Handle) : Prop := ix.parent? child = some owner

/-- `node` is `ancestor` or is owned by it, directly or through others. -/
def Within (ix : Index) (node ancestor : Handle) : Prop :=
  Relation.ReflTransGen ix.Owns ancestor node

/-- One elementary change, where the operations make it: a key is inserted only once, only a
placeholder is promoted, and only an orphan is linked, to an owner that it does not own itself. -/
inductive Move (ix : Index) : Index → Prop where
  | insert {key : String} {kind : Kind} (fresh : ix.handle? key = none) :
      Move ix (ix.insert key kind).2
  | promote {h : Handle} (external : ix.kind? h = some .external) : Move ix (ix.promote h)
  | link {owner child : Handle} (ownerKnown : ix.Knows owner) (childKnown : ix.Knows child)
      (orphan : ix.parent? child = none) (apart : ¬ ix.Within owner child) :
      Move ix (ix.link owner child)
  | attach {h : Handle} {name : String} {value : Measure} (known : ix.Knows h) :
      Move ix (ix.measured h name value)

/-- A chain of elementary changes. -/
def Moves : Index → Index → Prop := Relation.ReflTransGen Move

end Index

end CodeMetrics
