import CodeMetrics.Proofs.Index.Records
import CodeMetrics.Proofs.Scan.Refusals

/-!
# Methods and their owners

The bytecode scan registers the methods of the class that is open and no others.  So until its class
is entered, a type has the methods that source files have declared for it.

`Index.OwnsMethod` says which methods a key has.  A registration can add to them in one way only
(`Index.ownsMethod_of_register`), and every operation of the bytecode scan says for which owners it
does (`Findings.MethodsWithin`).
-/

namespace CodeMetrics

/-! ## Indexes -/

namespace Index

variable {ix ix' : Index} {owner key : String} {kind : Kind} {parent : Option String}
  {h g o : Handle}

/-- The element of `owner` owns a method of this key. -/
def OwnsMethod (ix : Index) (owner key : String) : Prop :=
  ∃ o h, ix.key? o = some owner ∧ ix.parent? h = some o ∧ ix.kind? h = some .method ∧
    ix.key? h = some key

/-- The methods of a key are the members of this kind. -/
theorem Sound.mem_keys_members_iff (sound : ix.Sound) :
    key ∈ (ix.members owner .method).map Element.key ↔ ix.OwnsMethod owner key := by
  simp only [List.mem_map, sound.mem_members_iff]
  constructor
  · rintro ⟨e, ⟨found, is, o, listed, owned⟩, rfl⟩
    refine ⟨o, e.handle, sound.handle?_iff.mp listed, ?_, ?_, key?_of_get? found⟩
    · rw [parent?_of_get? found, owned]
    · rw [kind?_of_get? found, is]
  · rintro ⟨o, h, named, owned, is, called⟩
    obtain ⟨e, found⟩ := knows_iff_get?.mp (.of_key? called)
    rw [parent?_of_get? found] at owned
    rw [kind?_of_get? found, Option.some.injEq] at is
    rw [key?_of_get? found, Option.some.injEq] at called
    exact ⟨e, ⟨sound.handle_eq found ▸ found, is, o, sound.handle?_iff.mpr named, owned⟩, called⟩

namespace OwnsMethod

theorem grows (owns : ix.OwnsMethod owner key) (grows : ix.Grows ix') :
    ix'.OwnsMethod owner key := by
  obtain ⟨o, h, named, owned, is, called⟩ := owns
  refine ⟨o, h, grows.key_kept named, grows.parent_kept owned, ?_, grows.key_kept called⟩
  exact (grows.kind_kept is).resolve_right fun promoted => by cases promoted.1

/-- A method that was owned before it grew is one of before. -/
theorem before (grows : ix.Grows ix') (sound : ix.Sound) (named : ix'.key? o = some owner)
    (owned : ix.parent? h = some o) (is : ix'.kind? h = some .method)
    (called : ix'.key? h = some key) : ix.OwnsMethod owner key := by
  obtain ⟨owner', named'⟩ := knows_iff_key?.mp (sound.owner_known owned)
  obtain ⟨key', called'⟩ := knows_iff_key?.mp (.of_parent? owned)
  obtain ⟨kind, is'⟩ := knows_iff_kind?.mp (.of_parent? owned)
  cases named.symm.trans (grows.key_kept named')
  cases called.symm.trans (grows.key_kept called')
  rcases grows.kind_kept is' with kept | ⟨-, promoted⟩
  · cases is.symm.trans kept
    exact ⟨o, h, named', owned, is', called'⟩
  · cases is.symm.trans promoted

end OwnsMethod

/-- Only keys, kinds and owners matter. -/
theorem ownsMethod_congr (keys : ∀ h, ix'.key? h = ix.key? h)
    (kinds : ∀ h, ix'.kind? h = ix.kind? h) (parents : ∀ h, ix'.parent? h = ix.parent? h) :
    ix'.OwnsMethod owner key ↔ ix.OwnsMethod owner key := by
  simp only [OwnsMethod, keys, kinds, parents]

/-! ### Registrations -/

/-- A link gives its child an owner, and nobody else. -/
theorem parent?_link_cases {a b : Handle} (owned : (ix.link a b).parent? g = some o) :
    ix.parent? g = some o ∨ g = b ∧ o = a := by
  by_cases same : g = b
  · subst same
    have known : ix.Knows g := by
      have known := Knows.of_parent? owned
      rwa [Knows, size_link] at known
    rw [parent?_link_self ix a g known, Option.some.injEq] at owned
    exact .inr ⟨rfl, owned.symm⟩
  · rw [parent?_link_of_ne ix a b g same] at owned
    exact .inl owned

/-- A link to a placeholder that is new. -/
theorem parent?_link_placeholder (base : Index) (ownerKey : String) (child : Handle)
    (owned : ((base.insert ownerKey .external).2.link ⟨base.size⟩ child).parent? g = some o) :
    base.parent? g = some o ∨
      g = child ∧
        ((base.insert ownerKey .external).2.link ⟨base.size⟩ child).key? o = some ownerKey := by
  rcases parent?_link_cases owned with before | ⟨same, rfl⟩
  · rw [parent?_insert] at before
    exact .inl before
  · rw [key?_link, key?_insert, if_pos rfl]
    exact .inr ⟨same, rfl⟩

/-- An owner that comes with a registration is the reported one, and is that of the registered
element.  All other elements keep the owners that they had, or stay without one. -/
theorem parent?_of_register (coherent : ix.Coherent)
    (ok : ix.register key kind parent = .ok (h, ix')) (owned : ix'.parent? g = some o) :
    ix.parent? g = some o ∨
      g = h ∧ ∃ ownerKey, parent = some ownerKey ∧ ix'.key? o = some ownerKey := by
  have adopts := ix.adopts key parent
  unfold register at ok
  generalize ix.adoption key parent = adopted at adopts ok
  split at ok
  · next e found =>
      cases merge : ix.mergeKind e kind with
      | error err => rw [merge] at ok; cases ok
      | ok merged =>
          have placed := placed_of_mergeKind coherent found merge
          rw [← placed.parent?_eq]
          rw [merge, Except.map, Except.ok.injEq] at ok
          cases adopts with
          | unreported _ => cases ok; exact .inl owned
          | owned _ _ => cases ok; exact .inl owned
          | circular _ _ _ _ => cases ok; exact .inl owned
          | @known ownerKey owner reported listed _ =>
              cases ok
              refine (parent?_link_cases owned).imp_right fun new => ⟨new.1, ownerKey, reported, ?_⟩
              have named := coherent.handle?_iff.mp listed
              rw [new.2, key?_link, (Grows.of_moves placed.moves).key_kept named]
          | @placeholder ownerKey reported _ _ _ =>
              cases ok
              exact (parent?_link_placeholder merged ownerKey e.handle owned).imp_right
                fun new => ⟨new.1, ownerKey, reported, new.2⟩
  · next missing =>
      have placed : ix.Placed key kind ⟨ix.size⟩ (ix.insert key kind).2 :=
        .inserted (coherent.find?_eq_none_iff.mp missing)
      cases adopts with
      | unreported _ => cases ok; exact .inl ((placed.parent?_eq g).symm.trans owned)
      | owned _ _ => cases ok; exact .inl ((placed.parent?_eq g).symm.trans owned)
      | circular _ _ _ _ => cases ok; exact .inl ((placed.parent?_eq g).symm.trans owned)
      | @known ownerKey owner reported listed _ =>
          cases ok
          have named := coherent.handle?_iff.mp listed
          rcases parent?_link_cases owned with before | ⟨same, rfl⟩
          · exact .inl ((placed.parent?_eq g).symm.trans before)
          · refine .inr ⟨same, ownerKey, reported, ?_⟩
            exact (key?_link ..).trans ((Grows.of_moves placed.moves).key_kept named)
      | @placeholder ownerKey reported other _ _ =>
          cases ok
          -- the placeholder takes the next handle, so the element comes after it
          have fresh : (ix.insert ownerKey .external).2.handle? key = none := by
            rw [handle?_insert, if_neg other, coherent.find?_eq_none_iff.mp missing]
          have placed : (ix.insert ownerKey .external).2.Placed key kind _ _ := .inserted fresh
          rcases parent?_link_cases owned with before | ⟨same, rfl⟩
          · refine .inl ((placed.parent?_eq g).symm.trans before |> fun owned => ?_)
            rwa [parent?_insert] at owned
          · refine .inr ⟨same, ownerKey, reported, ?_⟩
            have named : (ix.insert ownerKey .external).2.key? ⟨ix.size⟩ = some ownerKey := by
              rw [key?_insert, if_pos rfl]
            exact (key?_link ..).trans ((Grows.of_moves placed.moves).key_kept named)

/-- A registration adds a method only if it is one, and only to its reported owner. -/
theorem ownsMethod_of_register (sound : ix.Sound) {k : String}
    (ok : ix.register key kind parent = .ok (h, ix')) (owns : ix'.OwnsMethod owner k) :
    ix.OwnsMethod owner k ∨ kind = .method ∧ parent = some owner := by
  have grows := Grows.of_moves (register_moves sound ok)
  obtain ⟨o, g, named, owned, is, called⟩ := owns
  rcases parent?_of_register sound.toCoherent ok owned with
    before | ⟨rfl, ownerKey, reported, named'⟩
  · exact .inl (.before grows sound named before is called)
  · cases named.symm.trans named'
    refine .inr ⟨?_, reported⟩
    rcases (register_registers sound.toCoherent ok).is with is' | ⟨is', -⟩
    · cases is.symm.trans is'
      rfl
    · cases is.symm.trans is'

end Index

/-! ## Findings -/

namespace Findings

variable {f f' f'' : Findings} {owners owners' : String → Prop}

/-- The model evolves, and methods are added to these owners only. -/
structure MethodsWithin (owners : String → Prop) (f f' : Findings) : Prop where
  evolves : f.toModel.Evolves f'.toModel
  within : ∀ {owner key : String}, f'.index.OwnsMethod owner key →
    f.index.OwnsMethod owner key ∨ owners owner

namespace MethodsWithin

theorem of_index (evolves : f.toModel.Evolves f'.toModel) (index : f'.index = f.index) :
    f.MethodsWithin owners f' :=
  ⟨evolves, fun owns => .inl (index ▸ owns)⟩

theorem refl (f : Findings) : f.MethodsWithin owners f := .of_index (.refl _) rfl

theorem trans (first : f.MethodsWithin owners f') (second : f'.MethodsWithin owners f'') :
    f.MethodsWithin owners f'' := by
  refine ⟨first.evolves.trans second.evolves, fun owns => ?_⟩
  rcases second.within owns with before | new
  · exact first.within before
  · exact .inr new

theorem mono (within : f.MethodsWithin owners f') (more : ∀ owner, owners owner → owners' owner) :
    f.MethodsWithin owners' f' :=
  ⟨within.evolves, fun owns => (within.within owns).imp_right (more _)⟩

/-- Nothing but measures has changed. -/
theorem of_remeasures (remeasures : f.Remeasures f') : f.MethodsWithin owners f' where
  evolves := remeasures.evolves
  within owns := .inl
    ((Index.ownsMethod_congr remeasures.keys remeasures.kinds remeasures.parents).mp owns)

end MethodsWithin

theorem declare_methodsWithin (sound : f.toModel.Sound) (key : String) (kind : Kind)
    (parent : Option String) :
    f.MethodsWithin (fun owner => kind = .method ∧ parent = some owner)
      (f.declare key kind parent).2 := by
  refine ⟨f.declare_evolves key kind parent, fun owns => ?_⟩
  rcases declared : f.declare key kind parent with ⟨e | h, f'⟩
  · rw [declared] at owns
    obtain ⟨-, rfl⟩ := declare_eq_error declared
    exact .inl owns
  · rw [declared] at owns
    exact Index.ownsMethod_of_register sound.index (declare_eq_ok declared).1 owns

theorem declareFact_methodsWithin (sound : f.toModel.Sound) (phase : Phase) (key : String)
    (kind : Kind) (parent : Option String) :
    f.MethodsWithin (fun owner => kind = .method ∧ parent = some owner)
      (f.declareFact phase key kind parent).2 := by
  have declared := declare_methodsWithin sound key kind parent
  unfold declareFact
  generalize f.declare key kind parent = result at declared ⊢
  obtain ⟨e | h, f'⟩ := result
  · exact declared.trans (.of_index (.of_alike ⟨rfl, rfl⟩) rfl)
  · exact declared

/-- What is no method adds none. -/
theorem declare_spares (sound : f.toModel.Sound) (key : String) {kind : Kind}
    (other : kind ≠ .method) (parent : Option String) :
    f.MethodsWithin (fun _ => False) (f.declare key kind parent).2 :=
  (declare_methodsWithin sound key kind parent).mono fun _ new => other new.1

/-- A dependency gives no method to any owner: the placeholders that it may make have no owner, and
are no methods. -/
theorem depend_spares (sound : f.toModel.Sound) (source target : String) (kind : EdgeKind) :
    f.MethodsWithin (fun _ => False) (f.depend source target kind).2 := by
  refine ⟨f.depend_evolves source target kind, fun {owner key} owns => .inl ?_⟩
  have resolved {m m' : Model} {k : String} {h : Handle} (sound : m.index.Sound)
      (resolved : m.Resolved k h m') (owns : m'.index.OwnsMethod owner key) :
      m.index.OwnsMethod owner key := by
    obtain ⟨o, g, named, owned, is, called⟩ := owns
    rw [resolved.placed.parent?_eq] at owned
    exact .before (.of_moves resolved.placed.moves) sound named owned is called
  have links := Model.addEdge_links sound.index source target kind
  rw [depend_eq] at owns
  generalize f.toModel.addEdge source target kind = result at links owns
  cases links with
  | self _ => exact owns
  | sourceRefused _ _ => exact owns
  | targetRefused _ first _ => exact resolved sound.index first owns
  | counted _ first second _ =>
      exact resolved sound.index first
        (resolved (sound.index.moves first.placed.moves) second owns)

/-! ### Types -/

theorem ensureProject_spares (sound : f.toModel.Sound) :
    f.MethodsWithin (fun _ => False) f.ensureProject.2 := by
  have declared :=
    declare_spares sound f.config.projectKey (by decide : Kind.project ≠ .method) none
  unfold ensureProject
  cases f.index.project? with
  | some e => exact .refl f
  | none =>
      dsimp only
      generalize f.declare f.config.projectKey .project none = result at declared ⊢
      obtain ⟨e | h, f'⟩ := result <;> exact declared

/-- Placing a type gives no method to any owner.  What is registered are a project, a package and a
type. -/
theorem placeType_spares (sound : f.toModel.Sound) (key : String) :
    f.MethodsWithin (fun _ => False) (f.placeType key).2 := by
  have ensured := ensureProject_spares sound
  unfold placeType
  generalize f.ensureProject = result at ensured ⊢
  obtain ⟨e | project, f₁⟩ := result
  · exact ensured
  · have sound₁ := ensured.evolves.sound sound
    cases Key.package? key with
    | none => exact ensured.trans (declare_spares sound₁ key (by decide) _)
    | some package =>
        have packaged := ensured.trans
          (declare_spares sound₁ package (by decide : Kind.package ≠ .method) (some project))
        dsimp only
        generalize f₁.declare package .package (some project) = result at packaged ⊢
        obtain ⟨e | q, f₂⟩ := result
        · exact packaged
        · exact packaged.trans
            (declare_spares (packaged.evolves.sound sound) key (by decide) _)

theorem resolveType_spares (sound : f.toModel.Sound) (key : String) :
    f.MethodsWithin (fun _ => False) (f.resolveType key).2 := by
  unfold resolveType
  split
  · exact placeType_spares sound key
  · split
    · exact .refl f
    · exact placeType_spares sound key
    · exact .refl f

/-! ### Classes -/

/-- Opening a class gives no method to any owner: supertypes are placeholders, and fields are no
methods. -/
theorem openClass_spares (sound : f.toModel.Sound) {c : ClassFacts} {type : Handle}
    (isType : f.index.IsType type c.key) :
    f.MethodsWithin (fun _ => False) (f.openClass c type) := by
  refine openClass_induction (motive := f.MethodsWithin fun _ => False)
    (.of_index (entered_evolves isType) rfl) ?_ ?_ ?_
  · intro f' key kind held
    exact held.trans (depend_spares (held.evolves.sound sound) c.key key kind)
  · intro f' above held
    exact held.trans (.of_index (.of_alike ⟨rfl, rfl⟩) rfl)
  · intro f' field _ held
    refine held.trans ((declareFact_methodsWithin (held.evolves.sound sound) .bytecode
      (c.fieldKey field) .field (some c.key)).mono ?_)
    rintro owner ⟨impossible, -⟩
    cases impossible

theorem addReference_spares (sound : f.toModel.Sound) (c : ClassFacts) (r : Reference) :
    f.MethodsWithin (fun _ => False) (f.addReference c r) := by
  rw [addReference_eq]
  exact depend_spares sound c.key r.owner _

end Findings

end CodeMetrics
