import CodeMetrics.Proofs.Index.Remeasured

/-!
# Models without annotations

A measure under a name that is not the name of a metric is an annotation: the analysis itself
neither reads nor writes it.  `bare` takes all annotations away, and every operation on an index or
a model does the same before and after: `bare` commutes with it.
-/

namespace CodeMetrics

/-- Whether a measure of this name belongs to a metric; any other measure is an annotation. -/
def Metric.isName (name : String) : Bool := (ofName? name).isSome

/-- The name of a metric is one of the known names. -/
theorem Metric.isName_name (metric : Metric) : isName metric.name = true := by
  cases metric <;> decide

/-! ## Elements -/

namespace Element

/-- The element without its annotations. -/
def bare (e : Element) : Element :=
  { e with measures := e.measures.filter fun name _ => Metric.isName name }

variable (e : Element)

/-- A bare element has the measures with known names, and no others. -/
theorem measure?_bare (name : String) :
    e.bare.measure? name = if Metric.isName name then e.measure? name else none := by
  rw [measure?, bare, Std.ExtTreeMap.getElem?_filter', measure?]
  cases e.measures[name]? <;> cases Metric.isName name <;> rfl

/-- What is attached stays if it is a metric, and is gone if it is a custom measure, whatever
measures there were before. -/
theorem bare_attach (name : String) (value : Measure) :
    (e.attach name value).bare =
      if Metric.isName name then e.bare.attach name value else e.bare := by
  have measures : (e.attach name value).bare.measures =
      if Metric.isName name then e.bare.measures.insert name value else e.bare.measures := by
    refine Std.ExtTreeMap.ext_getElem? fun other => ?_
    by_cases named : Metric.isName name = true
    · rw [if_pos named]
      simp only [bare, attach, Std.ExtTreeMap.getElem?_filter', Std.ExtTreeMap.getElem?_insert,
        Std.LawfulEqOrd.compare_eq_iff_eq]
      split
      · next same => rw [← same, Option.filter_some, if_pos named]
      · rfl
    · rw [if_neg named]
      simp only [bare, attach, Std.ExtTreeMap.getElem?_filter', Std.ExtTreeMap.getElem?_insert,
        Std.LawfulEqOrd.compare_eq_iff_eq]
      split
      · next same =>
          rw [← same, Option.filter_some, if_neg named]
          cases e.measures[name]? <;> simp [named]
      · rfl
  split at measures
  · next named =>
      rw [if_pos named]
      exact congrArg (Element.mk e.handle e.key e.kind e.parent e.children) measures
  · next named =>
      rw [if_neg named]
      exact congrArg (Element.mk e.handle e.key e.kind e.parent e.children) measures

end Element

/-! ## Indexes -/

namespace Index

variable (ix : Index) (h : Handle) (key : String) (kind : Kind)

/-- The index without annotations. -/
def bare : Index := { ix with elements := ix.elements.map Element.bare }

/-- An element without measures has no annotations. -/
theorem filter_isName_empty :
    (∅ : Std.ExtTreeMap String Measure).filter (fun name _ => Metric.isName name) = ∅ :=
  Std.ExtTreeMap.ext_getElem? fun name => by
    rw [Std.ExtTreeMap.getElem?_filter']
    simp

/-! The structure of an index does not depend on the measures, whichever are taken away. -/

theorem size_bare : ix.bare.size = ix.size := ix.size_remeasured _

/-- The same element is found by a key, without its custom measures. -/
theorem find?_bare : ix.bare.find? key = (ix.find? key).map Element.bare :=
  ix.find?_remeasured _ key

theorem parent?_bare : ix.bare.parent? h = ix.parent? h := ix.parent?_remeasured _ h

/-- The decision about an owner is the same in a bare index. -/
theorem adoption_bare (parent : Option String) :
    ix.bare.adoption key parent = ix.adoption key parent :=
  ix.adoption_remeasured _ key parent

/-- Registration is the same in a bare index, up to custom measures in the result. -/
theorem bare_register (parent : Option String) :
    ix.bare.register key kind parent =
      (ix.register key kind parent).map fun (h, ix) => (h, ix.bare) :=
  ix.remeasured_register key kind filter_isName_empty parent

/-- Making a placeholder is the same in a bare index. -/
theorem bare_registerExternal :
    ix.bare.registerExternal key =
      ((ix.registerExternal key).1, (ix.registerExternal key).2.bare) :=
  ix.remeasured_registerExternal key filter_isName_empty

/-- The types and placeholders are listed alike in a bare index. -/
theorem typeLevel_bare : ix.bare.typeLevel = ix.typeLevel.map Element.bare :=
  ix.typeLevel_remeasured _

/-- The first project is the same in a bare index. -/
theorem project?_bare : ix.bare.project? = ix.project?.map Element.bare := ix.project?_remeasured _

/-- The members of a type have the same keys in a bare index, so its response set starts alike. -/
theorem keys_members_bare :
    (ix.bare.members key kind).map Element.key = (ix.members key kind).map Element.key :=
  ix.keys_members_remeasured _ key kind

/-- Metrics are attached to the bare index as well. -/
theorem bare_attachTo {name : String} (named : Metric.isName name = true) (value : Measure) :
    ix.bare.attachTo h name value = (ix.attachTo h name value).map bare := by
  unfold attachTo
  rw [size_bare]
  split
  · refine congrArg Except.ok (ix.remeasured_modify _ h fun e => ?_).symm
    have attached := e.bare_attach name value
    rw [if_pos named] at attached
    exact attached
  · rfl

/-- An annotation leaves the bare index as it was. -/
theorem bare_measured {name : String} (custom : Metric.isName name = false) (value : Measure) :
    (ix.measured h name value).bare = ix.bare := by
  refine ix.remeasured_modify_of_kept _ h fun e => ?_
  have attached := e.bare_attach name value
  rw [custom] at attached
  exact attached

end Index

/-! ## Models -/

namespace Model

variable (m : Model)

/-- The model without annotations. -/
def bare : Model := { m with index := m.index.bare }

/-- Registration is the same in a bare model, and so is what the journal says about it. -/
theorem bare_register (key : String) (kind : Kind) (parent : Option String) :
    m.bare.register key kind parent =
      ((m.register key kind parent).1, (m.register key kind parent).2.bare) := by
  have notes : m.index.bare.registrationNotes key parent =
      m.index.registrationNotes key parent := by
    rw [Index.registrationNotes, Index.registrationNotes, Index.adoption_bare]
  unfold register bare
  dsimp only
  rw [Index.bare_register, notes]
  cases m.index.register key kind parent <;> rfl

/-- Making all types vertices is the same in a bare model. -/
theorem bare_addTypes : m.bare.addTypes = m.addTypes.bare := by
  unfold addTypes bare Graph.addTypes
  dsimp only
  rw [Index.typeLevel_bare, List.foldl_map]
  rfl

/-- The end of a dependency is resolved alike in a bare model, or refused alike: only key and kind
of an element are looked at. -/
theorem bare_resolve (key : String) :
    m.bare.resolve key = ((m.resolve key).1, (m.resolve key).2.bare) := by
  have found : m.bare.index.find? key = (m.index.find? key).map Element.bare :=
    m.index.find?_bare key
  have registered : m.bare.registerExternal key =
      ((m.registerExternal key).1, (m.registerExternal key).2.bare) := by
    unfold registerExternal bare
    dsimp only
    rw [Index.bare_registerExternal]
    rfl
  unfold resolve
  rw [found, registered]
  cases m.index.find? key with
  | none => rfl
  | some e =>
      have kinds : e.bare.kind = e.kind := rfl
      dsimp only [Option.map_some]
      rw [kinds]
      split <;> rfl

/-- Counting a dependency is the same in a bare model. -/
theorem bare_addEdge (source target : String) (kind : EdgeKind) :
    m.bare.addEdge source target kind =
      ((m.addEdge source target kind).1, (m.addEdge source target kind).2.bare) := by
  unfold addEdge
  split
  · rfl
  · rw [bare_resolve]
    rcases m.resolve source with ⟨e | s, m₁⟩
    · rfl
    · dsimp only
      rw [bare_resolve]
      rcases m₁.resolve target with ⟨e | t, m₂⟩ <;> rfl

end Model

end CodeMetrics
