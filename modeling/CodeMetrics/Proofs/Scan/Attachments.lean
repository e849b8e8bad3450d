import CodeMetrics.Proofs.Scan.Lineage

/-!
# Where measures come from

A measure comes from an attachment, and of several attachments to one element under one name the
last one counts.  Nothing else touches the measures: neither a registration, nor a dependency, nor
the promotion of a placeholder.

Attachments are found in two places.  A history of the model has them among its changes, and a run
has them among the effects that visitors answer their calls with.  In both, the values that an
element is given under a name are listed in order (`Change.value?`, `Callback.values`), and the
measure at the end is the last of them, or what was there before if there are none.
-/

namespace CodeMetrics

/-- One more item at the front of a list counts only if nothing follows it. -/
theorem getLast?_filterMap_cons_or {α β : Type} (f : α → Option β) (a : α) (l : List α)
    (before : Option β) :
    ((a :: l).filterMap f).getLast?.or before = (l.filterMap f).getLast?.or ((f a).or before) := by
  have front : (a :: l).filterMap f = (f a).toList ++ l.filterMap f := by
    cases given : f a <;> simp [given]
  have last : (f a).toList.getLast? = f a := by
    cases f a <;> rfl
  rw [front, List.getLast?_append, last, Option.or_assoc]

/-! ## The measure of a handle -/

namespace Index

variable (ix : Index) (g h : Handle) (name other : String) (value : Measure)

/-- The measure of a handle under a name. -/
def measure? : Option Measure := (ix.measuresOf h)[name]?

variable {ix h}

theorem measure?_of_get? {e : Element} (found : ix.get? h = some e) :
    ix.measure? h name = e.measure? name := by
  rw [measure?, measuresOf_of_get? found, Element.measure?]

theorem measure?_of_not_knows (unknown : ¬ ix.Knows h) : ix.measure? h name = none := by
  rw [measure?, measuresOf, get?_eq_none_iff.mpr unknown]
  rfl

theorem measure?_congr {ix' : Index} (same : ix'.measuresOf h = ix.measuresOf h) :
    ix'.measure? h name = ix.measure? h name := by
  rw [measure?, measure?, same]

theorem measuresOf_registerExternal (ix : Index) (key : String) (h : Handle) :
    (ix.registerExternal key).2.measuresOf h = ix.measuresOf h := by
  unfold registerExternal
  split
  · rfl
  · exact measuresOf_insert ..

variable (h)

theorem measure?_measured (known : ix.Knows g) :
    (ix.measured g other value).measure? h name =
      if g = h ∧ other = name then some value else ix.measure? h name := by
  by_cases here : h = g
  · subst here
    rw [measure?, measuresOf_measured_self ix h other value known, Std.ExtTreeMap.getElem?_insert]
    simp only [Std.LawfulEqOrd.compare_eq_iff_eq, true_and]
    rfl
  · rw [if_neg fun same => here same.1.symm,
      measure?_congr name (measuresOf_measured_of_ne ix g h other value here)]

end Index

/-! ## Changes of a model -/

/-- The value that a change attaches to the element with this handle and this key, under a name. -/
def Model.Change.value? (h : Handle) (key name : String) : Model.Change → Option Measure
  | .attach owner other value => if owner = key ∧ other = name then some value else none
  | .attachTo g other value => if g = h ∧ other = name then some value else none
  | _ => none

namespace Model

variable {m : Model} {h : Handle} {key : String}

theorem measuresOf_resolve (m : Model) (key : String) (h : Handle) :
    (m.resolve key).2.index.measuresOf h = m.index.measuresOf h := by
  unfold resolve
  split
  · split
    · rfl
    · rfl
  · exact Index.measuresOf_registerExternal m.index key h

/-- A dependency attaches nothing. -/
theorem measuresOf_addEdge (m : Model) (source target : String) (kind : EdgeKind) (h : Handle) :
    (m.addEdge source target kind).2.index.measuresOf h = m.index.measuresOf h := by
  unfold addEdge
  split
  · rfl
  · have first := m.measuresOf_resolve source h
    split
    · next resolved => rw [resolved] at first; exact first
    · next m₁ resolved =>
        rw [resolved] at first
        have second := m₁.measuresOf_resolve target h
        split
        · next resolved => rw [resolved] at second; exact second.trans first
        · next resolved => rw [resolved] at second; exact second.trans first

/-- What one change does to the measures of an element that is there.  A change that attaches a
value to it replaces the value of this name; every other change leaves all its measures alone. -/
theorem measure?_apply (sound : m.index.Sound) (named : m.index.key? h = some key)
    {change : Change} (kept : change ≠ .clearIndex) (name : String) :
    (m.apply change).2.index.measure? h name =
      (change.value? h key name).or (m.index.measure? h name) := by
  have known : m.index.Knows h := .of_key? named
  cases change with
  | register owner kind parent =>
      simp only [apply, register]
      split
      · next ok => exact Index.measure?_congr name (Index.measuresOf_register ok h)
      · rfl
  | registerExternal owner =>
      show (m.index.registerExternal owner).2.measure? h name = _
      exact Index.measure?_congr name (Index.measuresOf_registerExternal m.index owner h)
  | attach owner other value =>
      simp only [apply, attach, Index.attach, Change.value?]
      cases listed : m.index.handle? owner with
      | none =>
          have different : owner ≠ key := by
            rintro rfl
            rw [sound.handle?_iff.mpr named] at listed
            cases listed
          rw [if_neg fun same => different same.1]
          rfl
      | some g =>
          have named' := sound.handle?_iff.mp listed
          -- the value goes to the handle of a key, and the element is asked about by its own key
          have same_iff : g = h ↔ owner = key := by
            constructor
            · rintro rfl
              rw [named, Option.some.injEq] at named'
              exact named'.symm
            · rintro rfl
              exact sound.key?_injective named' named
          simp only [Index.attachTo_of_knows (.of_key? named')]
          rw [Index.measure?_measured g h name other value (.of_key? named')]
          simp only [same_iff]
          split <;> rfl
  | attachTo g other value =>
      simp only [apply, attachTo, Change.value?]
      by_cases known' : m.index.Knows g
      · simp only [Index.attachTo_of_knows known']
        rw [Index.measure?_measured g h name other value known']
        split <;> rfl
      · have refused : m.index.attachTo g other value = .error (.unknownHandle g) := if_neg known'
        have different : g ≠ h := by
          rintro rfl
          exact known' known
        simp only [refused]
        rw [if_neg fun same => different same.1]
        rfl
  | addEdge source target kind =>
      exact Index.measure?_congr name (m.measuresOf_addEdge source target kind h)
  | addVertex g => rfl
  | addTypes => rfl
  | clearIndex => exact absurd rfl kept

/-- The measures after a history: the last value attached, or what was there before. -/
theorem measure?_applyAll (sound : m.index.Sound) (named : m.index.key? h = some key)
    {changes : List Change} (kept : Change.clearIndex ∉ changes) (name : String) :
    (m.applyAll changes).index.measure? h name =
      (changes.filterMap (Change.value? h key name)).getLast?.or (m.index.measure? h name) := by
  induction changes generalizing m with
  | nil => rfl
  | cons change rest ih =>
      rw [List.mem_cons, not_or] at kept
      have kept' : change ≠ .clearIndex := fun same => kept.1 same.symm
      have grows := Index.Grows.of_moves (m.apply_moves sound kept')
      have later := ih (m.apply_sound sound change) (grows.key_kept named) kept.2
      rw [getLast?_filterMap_cons_or, ← measure?_apply sound named kept' name]
      exact later

end Model

/-! ## Effects of visitors -/

/-- The value that an effect attaches to an element under a name. -/
def Effect.value? (h : Handle) (name : String) : Effect → Option Measure
  | .attach g other value => if g = h ∧ other = name then some value else none
  | _ => none

/-- The values that calls attach to an element under a name, in order. -/
def Callback.values (calls : List Callback) (h : Handle) (name : String) : List Measure :=
  (calls.flatMap (·.reaction.effects)).filterMap (Effect.value? h name)

theorem Callback.values_append (calls calls' : List Callback) (h : Handle) (name : String) :
    values (calls ++ calls') h name = values calls h name ++ values calls' h name := by
  rw [values, List.flatMap_append, List.filterMap_append]
  rfl

namespace Findings

variable {f : Findings} {h : Handle}

theorem knows_effect_iff (f : Findings) (effect : Effect) (h : Handle) :
    (effect.apply f).index.Knows h ↔ f.index.Knows h := by
  cases effect with
  | attach g name value =>
      rcases f.attach_cases g name value with ⟨-, attached⟩ | unknown
      · rw [attached, Index.Knows, Index.Knows, Index.size_measured]
      · rw [unknown]
  | superclass g above => exact Iff.rfl
  | say level message => exact Iff.rfl

theorem knows_effects_iff (f : Findings) (effects : List Effect) (h : Handle) :
    (effects.foldl Effect.apply f).index.Knows h ↔ f.index.Knows h := by
  induction effects generalizing f with
  | nil => exact Iff.rfl
  | cons effect rest ih => exact (ih (effect.apply f)).trans (f.knows_effect_iff effect h)

/-- What one effect of a visitor does to the measures of an element that is there: the value that it
attaches counts, and otherwise the one from before. -/
theorem measure?_effect (known : f.index.Knows h) (effect : Effect) (name : String) :
    (effect.apply f).index.measure? h name =
      (effect.value? h name).or (f.index.measure? h name) := by
  cases effect with
  | attach g other value =>
      rw [Effect.value?]
      by_cases known' : f.index.Knows g
      · rw [Effect.apply_attach known']
        refine (Index.measure?_measured g h name other value known').trans ?_
        split <;> rfl
      · have different : g ≠ h := by
          rintro rfl
          exact known' known
        rcases f.attach_cases g other value with ⟨impossible, -⟩ | unknown
        · exact absurd impossible known'
        · rw [unknown, if_neg fun same => different same.1]
          rfl
  | superclass g above => rfl
  | say level message => rfl

/-- The measures after effects: the last value attached, or what was there before. -/
theorem measure?_effects (known : f.index.Knows h) (effects : List Effect) (name : String) :
    (effects.foldl Effect.apply f).index.measure? h name =
      (effects.filterMap (Effect.value? h name)).getLast?.or (f.index.measure? h name) := by
  induction effects generalizing f with
  | nil => rfl
  | cons effect rest ih =>
      rw [getLast?_filterMap_cons_or, ← measure?_effect known effect name]
      exact ih ((f.knows_effect_iff effect h).mpr known)

end Findings

end CodeMetrics
