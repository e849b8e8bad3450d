import CodeMetrics.Proofs.Index.Change

/-!
# Indexes with other measures

The structure of an index does not depend on the measures of its elements.  `Index.remeasured`
changes the measures of all elements in one way, and every operation on the structure does the same
before and after: the change commutes with it, as long as an element without measures has none
afterwards.
-/

namespace CodeMetrics

open Std (ExtTreeMap)

/-- The element with other measures. -/
def Element.remeasured (change : ExtTreeMap String Measure → ExtTreeMap String Measure)
    (e : Element) : Element :=
  { e with measures := change e.measures }

namespace Index

variable (change : ExtTreeMap String Measure → ExtTreeMap String Measure) (ix : Index) (h : Handle)
  (key : String) (kind : Kind)

/-- The index with other measures. -/
def remeasured : Index := { ix with elements := ix.elements.map (Element.remeasured change) }

@[simp] theorem size_remeasured : (ix.remeasured change).size = ix.size := by
  simp [remeasured, size]

/-- Every element is at its handle as before, with other measures. -/
theorem get?_remeasured :
    (ix.remeasured change).get? h = (ix.get? h).map (Element.remeasured change) := by
  simp [remeasured, get?]

/-- The table of keys does not depend on measures. -/
@[simp] theorem handle?_remeasured : (ix.remeasured change).handle? key = ix.handle? key := rfl

/-- The lists of the kinds do not depend on measures. -/
@[simp] theorem handlesOf_remeasured :
    (ix.remeasured change).handlesOf kind = ix.handlesOf kind := rfl

@[simp] theorem key?_remeasured : (ix.remeasured change).key? h = ix.key? h := by
  rw [key?, key?, get?_remeasured, Option.map_map]
  rfl

@[simp] theorem kind?_remeasured : (ix.remeasured change).kind? h = ix.kind? h := by
  rw [kind?, kind?, get?_remeasured, Option.map_map]
  rfl

@[simp] theorem parent?_remeasured : (ix.remeasured change).parent? h = ix.parent? h := by
  rw [parent?, parent?, get?_remeasured, Option.bind_map]
  rfl

/-- The same element is found by a key, with other measures. -/
theorem find?_remeasured :
    (ix.remeasured change).find? key = (ix.find? key).map (Element.remeasured change) := by
  rw [find?, find?, handle?_remeasured, Option.map_bind]
  exact congrArg _ (funext (ix.get?_remeasured change))

/-- A walk along the owners does not depend on measures. -/
theorem meets_remeasured (ancestor : Handle) (hops : Nat) (node : Handle) :
    (ix.remeasured change).meets ancestor hops node = ix.meets ancestor hops node := by
  induction hops generalizing node with
  | zero => unfold meets; rfl
  | succ hops ih =>
      unfold meets
      rw [parent?_remeasured]
      cases ix.parent? node with
      | none => rfl
      | some owner => exact congrArg _ (ih owner)

/-- The decision about the owner of a registration does not depend on measures. -/
theorem adoption_remeasured (parent : Option String) :
    (ix.remeasured change).adoption key parent = ix.adoption key parent := by
  have within (node ancestor : Handle) : (ix.remeasured change).isWithin node ancestor =
      ix.isWithin node ancestor := by
    rw [isWithin, isWithin, size_remeasured, meets_remeasured]
  unfold adoption
  rw [find?_remeasured]
  simp only [handle?_remeasured, within]
  cases ix.find? key <;> rfl

/-! ## Changes of the structure -/

/-- A change of one element that commutes with other measures does so in the index. -/
theorem remeasured_modify {edit : Element → Element}
    (commutes : ∀ e, (edit e).remeasured change = edit (e.remeasured change)) :
    (ix.modify h edit).remeasured change = (ix.remeasured change).modify h edit := by
  refine congrArg (Index.mk · ix.byKey ix.byKind) (Array.ext_getElem? fun n => ?_)
  simp only [modify, remeasured, Array.getElem?_map, Array.getElem?_modify]
  split
  · rw [Option.map_map, Option.map_map]
    exact congrArg (Option.map · _) (funext commutes)
  · rfl

/-- An edit that makes no difference once the measures are changed. -/
theorem remeasured_modify_of_kept {edit : Element → Element}
    (kept : ∀ e, (edit e).remeasured change = e.remeasured change) :
    (ix.modify h edit).remeasured change = ix.remeasured change := by
  refine congrArg (Index.mk · ix.byKey ix.byKind) (Array.ext_getElem? fun n => ?_)
  simp only [modify, Array.getElem?_map, Array.getElem?_modify]
  split
  · rw [Option.map_map]
    exact congrArg (Option.map · _) (funext kept)
  · rfl

/-- Linking commutes with other measures, since owners and children are no measures. -/
theorem remeasured_link (owner child : Handle) :
    (ix.link owner child).remeasured change = (ix.remeasured change).link owner child := by
  unfold link
  rw [remeasured_modify, remeasured_modify]
  · exact fun _ => rfl
  · exact fun _ => rfl

/-- Promotion commutes with other measures. -/
theorem remeasured_promote : (ix.promote h).remeasured change = (ix.remeasured change).promote h := by
  have modified : (ix.modify h fun e => { e with kind := .type }).remeasured change =
      (ix.remeasured change).modify h fun e => { e with kind := .type } :=
    ix.remeasured_modify change h fun _ => rfl
  exact congrArg (Index.mk · _ _) (congrArg Index.elements modified)

/-- Kinds are reconciled alike, and conflict alike, whatever the measures are. -/
theorem remeasured_mergeKind (e : Element) :
    (ix.remeasured change).mergeKind (e.remeasured change) kind =
      (ix.mergeKind e kind).map (remeasured change) := by
  have kinds : (e.remeasured change).kind = e.kind := rfl
  unfold mergeKind
  rw [kinds]
  split
  · rfl
  · exact congrArg Except.ok (ix.remeasured_promote change e.handle).symm
  · split <;> rfl

section Insertion

variable {change} (empty : change ∅ = ∅)
include empty

/-- A new element has no measures, so it makes no difference whether measures are exchanged before
it is inserted or afterwards. -/
theorem remeasured_insert :
    (ix.remeasured change).insert key kind =
      ((ix.insert key kind).1, (ix.insert key kind).2.remeasured change) := by
  simp [insert, remeasured, size, handlesOf, Element.remeasured, empty]

/-- **Registration does not depend on measures.**  It gives the same handle or the same error, and
an index that differs by the measures only. -/
theorem remeasured_register (parent : Option String) :
    (ix.remeasured change).register key kind parent =
      (ix.register key kind parent).map fun (h, ix) => (h, ix.remeasured change) := by
  unfold register
  rw [adoption_remeasured, find?_remeasured]
  cases ix.find? key with
  | some e =>
      dsimp only [Option.map_some]
      rw [remeasured_mergeKind]
      cases ix.mergeKind e kind with
      | error err => rfl
      | ok merged =>
          refine congrArg Except.ok ?_
          dsimp only
          split
          · rfl
          · rfl
          · rw [remeasured_link]; rfl
          · rw [remeasured_insert _ _ _ empty, remeasured_link]; rfl
  | none =>
      dsimp only [Option.map_none]
      split
      · rw [remeasured_insert _ _ _ empty]; rfl
      · rw [remeasured_insert _ _ _ empty]; rfl
      · simp only [remeasured_insert _ _ _ empty, Except.map, remeasured_link]
      · simp only [remeasured_insert _ _ _ empty, Except.map, remeasured_link]

/-- Making a placeholder does not depend on measures. -/
theorem remeasured_registerExternal :
    (ix.remeasured change).registerExternal key =
      ((ix.registerExternal key).1, (ix.registerExternal key).2.remeasured change) := by
  unfold registerExternal
  rw [handle?_remeasured]
  split
  · rfl
  · exact ix.remeasured_insert key .external empty

end Insertion

/-! ## Listings -/

/-- The types and placeholders are listed in the same order, with other measures. -/
theorem typeLevel_remeasured :
    (ix.remeasured change).typeLevel = ix.typeLevel.map (Element.remeasured change) := by
  rw [typeLevel, typeLevel, search, search, remeasured, Array.toList_map, List.filter_map]
  rfl

/-- The first project is the same element, with other measures. -/
theorem project?_remeasured :
    (ix.remeasured change).project? = ix.project?.map (Element.remeasured change) := by
  rw [project?, project?, handlesOf_remeasured, Option.map_bind]
  exact congrArg _ (funext (ix.get?_remeasured change))

/-- The members of an element keep their keys, in their order, since neither children nor kinds
depend on measures. -/
theorem keys_members_remeasured :
    ((ix.remeasured change).members key kind).map Element.key =
      (ix.members key kind).map Element.key := by
  have owned (h : Handle) : (ix.remeasured change).children h =
      (ix.children h).map (Element.remeasured change) := by
    rw [children, children, get?_remeasured]
    cases ix.get? h with
    | none => rfl
    | some e =>
        dsimp only [Option.map_some]
        rw [List.map_filterMap]
        exact congrArg (List.filterMap · e.children) (funext (ix.get?_remeasured change))
  rw [members, members, handle?_remeasured]
  cases ix.handle? key with
  | none => rfl
  | some h =>
      dsimp only
      rw [owned, List.filter_map, List.map_map]
      rfl

end Index

end CodeMetrics
