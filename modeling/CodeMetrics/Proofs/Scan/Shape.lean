import CodeMetrics.Proofs.Scan.Places
import CodeMetrics.Proofs.Scan.Recounting

/-!
# The shape of a model without sources

Without source files every element of a model comes from a class, and each has its place
(`Index.Shaped`) at any moment of the bytecode scan, for the classes that were accepted so far.

That members belong to the *accepted* class of their type, and not to another one with the same key,
is known only together with `Findings.Settles`: a class is entered only if there was none of its key
before.
-/

namespace CodeMetrics

/-! ## Findings -/

namespace Findings

/-- Every element has its place; the project is the configured one. -/
def Shaped (cs : List ClassFacts) (f : Findings) : Prop :=
  f.index.Shaped f.config.projectKey cs

variable {f f' : Findings} {cs cs' : List ClassFacts} {key : String} {kind : Kind}

namespace Shaped

/-- More classes may account for the same elements. -/
theorem mono (shaped : f.Shaped cs) (more : cs ⊆ cs') : f.Shaped cs' :=
  Index.Shaped.mono shaped more

/-- The shape is a matter of the index and of the key of the project; the rest of the findings may
change. -/
theorem of_index (shaped : f.Shaped cs) (index : f'.index = f.index)
    (config : f'.config = f.config) : f'.Shaped cs := by
  unfold Shaped
  rw [index, config]
  exact shaped

/-- Something is registered below a known owner.  The kinds of both differ, so they are different
elements, and the new one belongs where it is put. -/
theorem declare (shaped : f.Shaped cs) (sound : f.toModel.Sound) (isOwned : kind.isOwned = true)
    {owner : Handle} {ownerKey : String} {above : Kind} (named : f.index.key? owner = some ownerKey)
    (is : f.index.kind? owner = some above) (misfit : ¬ above.Fits kind)
    (new : ∀ {ix : Index} {h : Handle}, f.index.Grows ix → ix.parent? h = some owner →
      ix.Belongs f.config.projectKey cs h key kind) :
    (f.declare key kind (some ownerKey)).2.Shaped cs := by
  have tacit := f.declare_tacit key kind (some ownerKey)
  rcases declared : f.declare key kind (some ownerKey) with ⟨e | h, f'⟩
  · rw [(declare_eq_error declared).2]
    exact shaped
  · rw [declared] at tacit
    obtain ⟨base, placed, settled⟩ :=
      declare_placed (steady_of_sound sound) (.of_key? named) declared
    have grows := tacit.evolves.grows sound
    rw [settled] at grows
    unfold Shaped
    rw [settled, tacit.config]
    exact Index.Shaped.settle shaped sound.index placed isOwned named is misfit grows (new grows)

/-- A member of a class is registered below the type of the class; a refusal is reported and changes
no place. -/
theorem declareFact (shaped : f.Shaped cs) (sound : f.toModel.Sound) {c : ClassFacts}
    {type : Handle} (isType : f.index.IsType type c.key)
    (member : kind = .field ∨ kind = .method)
    (new : ∀ {ix : Index} {h : Handle}, ix.parent? h = some type → ix.IsType type c.key →
      ix.Belongs f.config.projectKey cs h key kind) :
    (f.declareFact .bytecode key kind (some c.key)).2.Shaped cs := by
  have isOwned : kind.isOwned = true := by rcases member with rfl | rfl <;> rfl
  have misfit : ¬ Kind.type.Fits kind := by
    rcases member with rfl | rfl <;> simp [Kind.Fits, Kind.isTypeLevel]
  have declared := shaped.declare sound isOwned isType.1 isType.2 misfit
    fun grows owned => new owned (isType.grows grows)
  unfold Findings.declareFact
  rcases result : f.declare key kind (some c.key) with ⟨e | h, f'⟩
  · rw [result] at declared
    exact declared.of_index rfl rfl
  · rw [result] at declared
    exact declared

/-- Counting a dependency makes placeholders at most, so a class that is hosted stays so. -/
theorem depend (shaped : f.Shaped cs) (sound : f.toModel.Sound) (source target : String)
    (kind : EdgeKind) : (f.depend source target kind).2.Shaped cs := by
  have links := Model.addEdge_links sound.index source target kind
  have resolved {m m' : Model} {key : String} {h : Handle} (resolved : m.Resolved key h m')
      (shaped : m.index.Shaped f.config.projectKey cs) :
      m'.index.Shaped f.config.projectKey cs := shaped.orphan resolved.placed (.inl rfl)
  rw [depend_eq]
  generalize f.toModel.addEdge source target kind = result at links
  cases links with
  | self _ => exact shaped
  | sourceRefused _ _ => exact shaped
  | targetRefused _ first _ =>
      have source := resolved first shaped
      exact source
  | counted _ first second _ =>
      have both := resolved second (resolved first shaped)
      exact both

/-- Visitors attach measures, so everything stays in its place. -/
theorem effects (shaped : f.Shaped cs) (effects : List Effect) :
    (effects.foldl Effect.apply f).Shaped cs := by
  induction effects generalizing f with
  | nil => exact shaped
  | cons effect rest ih =>
      refine ih ?_
      cases effect with
      | attach h name value =>
          have remeasures : f.Remeasures (Effect.apply f (.attach h name value)) :=
            effect_remeasures rfl
          unfold Shaped
          rw [remeasures.config]
          exact shaped.reshape remeasures.grows remeasures.keys remeasures.kinds remeasures.parents
      | superclass h above => exact shaped
      | say level message => exact shaped

/-! ### Types -/

/-- The project is registered, unless there is one.  Where this succeeds, the project is known by
its key from then on. -/
theorem ensureProject (shaped : f.Shaped cs) (sound : f.toModel.Sound) :
    f.ensureProject.2.Shaped cs ∧ ∀ {project : String}, f.ensureProject.1 = .ok project →
      ∃ h, f.ensureProject.2.index.key? h = some project ∧
        f.ensureProject.2.index.kind? h = some .project := by
  unfold Findings.ensureProject
  cases found : f.index.project? with
  | some e =>
      refine ⟨shaped, fun ok => ?_⟩
      cases ok
      exact ⟨e.handle, project?_named (steady_of_sound sound) found⟩
  | none =>
      rcases declared : f.declare f.config.projectKey .project none with ⟨e | h, f'⟩
      · rw [(declare_eq_error declared).2]
        exact ⟨shaped, by rintro _ ⟨⟩⟩
      · have config := (declare_eq_ok declared).2.2.1
        obtain ⟨base, placed, settled⟩ :=
          declare_placed (steady_of_sound sound) (.unreported _) declared
        have orphan : base.settle h (f.index.adoption f.config.projectKey none) = base := rfl
        rw [orphan] at settled
        have is : base.kind? h = some .project :=
          placed.kind?.resolve_right fun weaker => by cases weaker.2
        refine ⟨?_, fun ok => ?_⟩
        · unfold Shaped
          rw [settled, config]
          exact shaped.orphan placed (.inr ⟨rfl, rfl⟩)
        · cases ok
          dsimp only
          rw [settled, config]
          exact ⟨h, placed.key?, is⟩

/-- A type is registered in its package, or in the project if its key names no package.  The package
is provided first, so it belongs to the project. -/
theorem placeType (shaped : f.Shaped cs) (sound : f.toModel.Sound)
    (listed : ∃ c ∈ cs, c.key = key) : (f.placeType key).2.Shaped cs := by
  obtain ⟨shaped₁, there⟩ := shaped.ensureProject sound
  have sound₁ := f.ensureProject_tacit.evolves.sound sound
  unfold Findings.placeType
  rcases ensured : f.ensureProject with ⟨e | project, f₁⟩
  · rw [ensured] at shaped₁
    exact shaped₁
  · rw [ensured] at shaped₁ there sound₁
    obtain ⟨root, named, is⟩ := there rfl
    cases packaged : Key.package? key with
    | none =>
        refine shaped₁.declare sound₁ rfl named is (by simp [Kind.Fits, Kind.isTypeLevel]) ?_
        intro ix h grows owned
        refine ⟨listed, root, owned, ?_⟩
        rw [packaged]
        exact grows.definite_kept is (by decide)
    | some package =>
        -- the package lies below the project, and the type below the package
        have shaped₂ : (f₁.declare package .package (some project)).2.Shaped cs :=
          shaped₁.declare sound₁ rfl named is (by simp [Kind.Fits, Kind.isTypeLevel])
            fun grows owned => ⟨root, owned, grows.definite_kept is (by decide)⟩
        have sound₂ := (f₁.declare_evolves package .package (some project)).sound sound₁
        dsimp only
        rcases declared : f₁.declare package .package (some project) with ⟨e | q, f₂⟩
        · rw [declared] at shaped₂
          exact shaped₂
        · rw [declared] at shaped₂ sound₂
          obtain ⟨base, placed, settled⟩ :=
            declare_placed (steady_of_sound sound₁) (.of_key? named) declared
          have named' : f₂.index.key? q = some package := by
            rw [settled, Index.key?_settle, placed.key?]
          have is' : f₂.index.kind? q = some .package := by
            rw [settled, Index.kind?_settle, placed.kind?_of_isOwned rfl]
          refine shaped₂.declare sound₂ rfl named' is' (by simp [Kind.Fits, Kind.isTypeLevel]) ?_
          intro ix h grows owned
          refine ⟨listed, q, owned, ?_⟩
          rw [packaged]
          exact ⟨grows.key_kept named', grows.definite_kept is' (by decide)⟩

/-- Finding the type of a class that is accounted for keeps the shape: a type, its package and the
project are all that can be new. -/
theorem resolveType (shaped : f.Shaped cs) (sound : f.toModel.Sound)
    (listed : ∃ c ∈ cs, c.key = key) : (f.resolveType key).2.Shaped cs := by
  unfold Findings.resolveType
  split
  · exact shaped.placeType sound listed
  · split
    · exact shaped
    · exact shaped.placeType sound listed
    · exact shaped

end Shaped

/-! ### Open classes -/

/-- The class is open: its type is there, and everything has its place. -/
structure Hosts (cs : List ClassFacts) (c : ClassFacts) (type : Handle) (f : Findings) : Prop where
  sound : f.toModel.Sound
  isType : f.index.IsType type c.key
  shaped : f.Shaped cs

namespace Hosts

variable {c : ClassFacts} {type : Handle}

theorem depend (hosts : f.Hosts cs c type) (source target : String) (kind : EdgeKind) :
    (f.depend source target kind).2.Hosts cs c type := by
  have evolves := f.depend_evolves source target kind
  exact ⟨evolves.sound hosts.sound, hosts.isType.grows (evolves.grows hosts.sound),
    hosts.shaped.depend hosts.sound source target kind⟩

/-- A member of the class. -/
theorem declareFact (hosts : f.Hosts cs c type) (member : kind = .field ∨ kind = .method)
    (new : ∀ {ix : Index} {h : Handle}, ix.parent? h = some type → ix.IsType type c.key →
      ix.Belongs f.config.projectKey cs h key kind) :
    (f.declareFact .bytecode key kind (some c.key)).2.Hosts cs c type := by
  have evolves := (declareMember_keeps hosts.sound key member (some c.key)).evolves
  exact ⟨evolves.sound hosts.sound, hosts.isType.grows (evolves.grows hosts.sound),
    hosts.shaped.declareFact hosts.sound hosts.isType member new⟩

/-- A field that the class declares may be registered below it. -/
theorem field (hosts : f.Hosts cs c type) (listed : c ∈ cs) {field : Field}
    (declared : field ∈ c.fields) :
    (f.declareFact .bytecode (c.fieldKey field) .field (some c.key)).2.Hosts cs c type :=
  hosts.declareFact (.inl rfl) fun owned isType =>
    ⟨c, listed, field, declared, rfl, type, owned, isType⟩

/-- A method that the class declares may be registered below it. -/
theorem method (hosts : f.Hosts cs c type) (listed : c ∈ cs) {m : Method}
    (declared : m ∈ c.methods) :
    (f.declareFact .bytecode (c.methodKey m) .method (some c.key)).2.Hosts cs c type :=
  hosts.declareFact (.inr rfl) fun owned isType =>
    ⟨c, listed, m, declared, rfl, type, owned, isType⟩

/-- A class is opened with its supertypes and its fields. -/
theorem openClass (hosts : f.Hosts cs c type) (listed : c ∈ cs) :
    (f.openClass c type).Hosts cs c type := by
  have evolves := entered_evolves hosts.isType
  refine openClass_induction ⟨evolves.sound hosts.sound, hosts.isType, hosts.shaped⟩ ?_ ?_ ?_
  · intro f key kind hosts
    exact hosts.depend c.key key kind
  · intro f above hosts
    exact ⟨hosts.sound, hosts.isType, hosts.shaped⟩
  · intro f field declared hosts
    exact hosts.field listed declared

/-- References of a class make placeholders at most. -/
theorem addReference (hosts : f.Hosts cs c type) (r : Reference) :
    (f.addReference c r).Hosts cs c type := by
  rw [addReference_eq]
  exact hosts.depend c.key r.owner _

end Hosts

end Findings

/-! ## The bytecode scan -/

open Scanning Session

variable {σ : Type} {badges : List Badge} {s t : Session σ}

/-- Visitors do not change the shape, whatever they answer: no effect makes an element or gives it
an owner. -/
theorem Findings.Shaped.heard {cs : List ClassFacts} (shaped : s.findings.Shaped cs)
    (heard : Heard s () t) : t.findings.Shaped cs := by
  obtain ⟨calls, hears, -⟩ := heard
  rw [hears.findings]
  exact shaped.effects _

namespace BytecodeScan

/-- After some classes: which of them were accepted is settled, and everything has its place. -/
structure Arranged (badges : List Badge) (cs : List ClassFacts) (types : List Handle)
    (s : Session σ) : Prop extends Underway badges types s where
  settles : s.findings.Settles cs types
  shaped : s.findings.Shaped (accepted cs)

/-- Inside of a class whose key has not been there before. -/
structure Arranging (badges : List Badge) (cs : List ClassFacts) (types : List Handle)
    (c : ClassFacts) (type : Handle) (s : Session σ) : Prop
    extends Opened badges types c type s where
  settles : s.findings.Settles cs types
  first : c ∈ accepted (cs ++ [c])
  shaped : s.findings.Shaped (accepted (cs ++ [c]))

variable {cs : List ClassFacts} {types : List Handle} {c : ClassFacts} {type : Handle}
  {f : Findings}

/-- A class that was accepted once stays among the accepted ones. -/
theorem accepted_subset (cs : List ClassFacts) (c : ClassFacts) :
    accepted cs ⊆ accepted (cs ++ [c]) := by
  rw [accepted_concat]
  exact List.subset_append_left _ _

/-- For every key that was decoded there is an accepted class, which is the first with this key. -/
theorem exists_mem_accepted {key : String} (listed : key ∈ cs.map ClassFacts.key) :
    ∃ c ∈ accepted cs, c.key = key := by
  have kept : key ∈ (accepted cs).map ClassFacts.key ++ [] ↔ key ∈ cs.map ClassFacts.key ++ [] :=
    mem_map_firstBy
  rw [List.append_nil, List.append_nil] at kept
  exact List.mem_map.mp (kept.mpr listed)

namespace Arranged

/-- A message, an issue or a count. -/
theorem alter (arranged : Arranged badges cs types s)
    (underway : Underway badges types { s with findings := f })
    (index : f.index = s.findings.index) (config : f.config = s.findings.config) :
    Arranged badges cs types { s with findings := f } where
  toUnderway := underway
  settles := arranged.settles.advances (.of_index index config)
  shaped := arranged.shaped.of_index index config

/-- Visitors leave an arranged session arranged. -/
theorem heard (arranged : Arranged badges cs types s) (heard : Heard s () t) :
    Arranged badges cs types t where
  toUnderway := arranged.toUnderway.heard heard
  settles := arranged.settles.advances (heard.advances arranged.sound)
  shaped := arranged.shaped.heard heard

/-- Resolving the type of one more class. -/
theorem resolve (arranged : Arranged badges cs types s) {r : Except IndexError Handle}
    (resolved : s.findings.resolveType c.key = (r, f)) :
    f.Settles cs types ∧ f.Shaped (accepted (cs ++ [c])) := by
  have advances := Findings.Advances.resolveType arranged.sound c.key
  have listed : ∃ c' ∈ accepted (cs ++ [c]), c'.key = c.key := exists_mem_accepted (by simp)
  have shaped := (arranged.shaped.mono (accepted_subset cs c)).resolveType arranged.sound listed
  rw [resolved] at advances shaped
  exact ⟨arranged.settles.advances advances, shaped⟩

/-- A class is passed over, with an issue. -/
theorem pass (arranged : Arranged badges cs types s) {r : Except IndexError Handle}
    (resolved : s.findings.resolveType c.key = (r, f))
    (settled : (∃ h ∈ types, f.index.IsType h c.key) ∨ f.Bars c.key) (i : Issue) :
    Arranged badges (cs ++ [c]) types { s with findings := f.record i } := by
  have tacit := s.findings.resolveType_tacit c.key
  obtain ⟨settles, shaped⟩ := arranged.resolve resolved
  rw [resolved] at tacit
  exact ⟨arranged.toUnderway.record tacit.toKeeps i,
    (settles.pass settled).advances (.of_index rfl rfl), shaped.of_index rfl rfl⟩

/-- A class that is new is opened, with a type that no earlier class had. -/
theorem enter (arranged : Arranged badges cs types s)
    (resolved : s.findings.resolveType c.key = (.ok type, f)) (new : type ∉ types) :
    Arranging badges cs types c type { s with findings := f.openClass c type } := by
  have tacit := s.findings.resolveType_tacit c.key
  have isType := Findings.isType_of_resolveType arranged.sound resolved
  obtain ⟨settles, shaped⟩ := arranged.resolve resolved
  rw [resolved] at tacit
  have sound := tacit.evolves.sound arranged.sound
  have fresh : c.key ∉ cs.map ClassFacts.key := fun listed =>
    new ((settles.mem_types_iff sound.index.toCoherent isType).mpr listed)
  have first : c ∈ accepted (cs ++ [c]) := by
    rw [accepted_concat, if_neg fresh]
    exact List.mem_append_right _ (List.mem_singleton_self c)
  have hosts := Findings.Hosts.openClass ⟨sound, isType, shaped⟩ first
  exact ⟨Opened.enter arranged.toUnderway resolved new,
    settles.advances (.of_within sound (Findings.openClass_within sound isType)), first,
    hosts.shaped⟩

end Arranged

namespace Arranging

/-- The open class is hosted by its own type. -/
theorem hosts (arranging : Arranging badges cs types c type s) :
    s.findings.Hosts (accepted (cs ++ [c])) c type :=
  ⟨arranging.sound, arranging.isType, arranging.shaped⟩

/-- What the open class adds within its budget keeps the arrangement. -/
theorem keeps (arranging : Arranging badges cs types c type s) (keeps : s.findings.Keeps f)
    (within : s.findings.ExtendsWithin Findings.memberBudget f)
    (shaped : f.Shaped (accepted (cs ++ [c]))) :
    Arranging badges cs types c type { s with findings := f } where
  toOpened := arranging.toOpened.keeps keeps
  settles := arranging.settles.advances (.of_within arranging.sound within)
  first := arranging.first
  shaped := shaped

/-- Visitors leave a session arranged that has an open class. -/
theorem heard (arranging : Arranging badges cs types c type s) (heard : Heard s () t) :
    Arranging badges cs types c type t where
  toOpened := arranging.toOpened.heard heard
  settles := arranging.settles.advances (heard.advances arranging.sound)
  first := arranging.first
  shaped := arranging.shaped.heard heard

/-- When a class is left, it is one more that accounts for elements. -/
theorem leave (arranging : Arranging badges cs types c type s) :
    Arranged badges (cs ++ [c]) (type :: types) s where
  toUnderway := arranging.toUnderway
  settles := arranging.settles.accept arranging.isType
  shaped := arranging.shaped

end Arranging

/-- Every step of the bytecode scan leaves everything in its place.  This is the shape of the model
as an invariant of the scan, with the classes so far as what accounts for its elements. -/
theorem steps_arranged (badges : List Badge) :
    Steps (fun cs _ types (s : Session σ) => Arranged badges cs types s)
      (fun cs _ types c type s => Arranging badges cs types c type s) (Stopped badges) where
  coherent arranging := arranging.sound.index.toCoherent
  say level message arranged := arranged.alter (arranged.keeps (.say _ level message)) rfl rfl
  fail path message kept arranged :=
    arranged.alter (arranged.record (.refl _) (.decodeFailed path message kept)) rfl rfl
  refuse arranged resolved := by
    exact arranged.pass resolved (.inr (Findings.bars_of_resolveType arranged.sound resolved)) _
  again path arranged resolved known := by
    have isType := Findings.isType_of_resolveType arranged.sound resolved
    exact arranged.pass resolved (.inl ⟨_, known, isType⟩) _
  enter arranged resolved new := by
    have arranging := arranged.enter resolved new
    exact (arranging.dispatch (by rintro visit ⟨⟩)).mono
      (fun _ _ heard => arranging.heard heard) fun _ _ stopped => stopped
  declare declared arranging :=
    arranging.keeps (Findings.declareMember_keeps arranging.sound _ (.inr rfl) _)
      (Findings.declareFact_within arranging.sound _ _ (.inr rfl) _)
      (arranging.hosts.method arranging.first declared).shaped
  tell inside _ arranging := by
    refine (arranging.dispatch ?_).mono (fun _ _ heard => arranging.heard heard)
      fun _ _ stopped => stopped
    rintro visit rfl
    cases inside
  refer r arranging :=
    arranging.keeps (Findings.addReference_keeps arranging.sound _ r)
      (Findings.addReference_within arranging.sound _ r) (arranging.hosts.addReference r).shaped
  leave arranging := by
    refine (arranging.dispatch ?_).mono (fun _ _ heard => (arranging.heard heard).leave)
      fun _ _ stopped => stopped
    rintro visit ⟨⟩
    exact .of_key? arranging.isType.1
  close arranged :=
    (arranged.dispatch (by rintro visit ⟨⟩)).mono (fun _ _ heard => arranged.heard heard)
      fun _ _ stopped => stopped

end BytecodeScan

/-! ## Runs without sources -/

open BytecodeScan (Arranged)

/-- Without files the source scan tells of its end and finds nothing. -/
theorem SourceScan.run_nil_arranged (arranged : Arranged badges [] [] s) :
    (run []).Runs s (fun _ t => Arranged badges [] [] t) (Stopped badges) := by
  have skipped (t : Session σ) : (List.forM [] scanFile).Runs t (fun _ u => u = t)
      (Stopped badges) := .pure rfl
  unfold run
  refine .alter_bind ((skipped _).bind ?_)
  rintro - t rfl
  have said := arranged.alter (arranged.keeps (.say _ .info s!"Source scan: {0} files")) rfl rfl
  refine (said.dispatch (by rintro visit ⟨⟩)).bind fun _ u heard => ?_
  have told := said.heard heard
  exact .alter (told.alter (told.keeps (.say _ .info _)) rfl rfl)

/-- `p` is an element, and `e` is one of its children. -/
def Index.HasChild (ix : Index) (p e : Element) : Prop :=
  p ∈ ix.elements.toList ∧ e ∈ ix.children p.handle

/-- An element with an owner is listed among the children of this owner. -/
theorem Index.Sound.hasChild {ix : Index} (sound : ix.Sound) {e : Element} {owner : Handle}
    (found : ix.get? e.handle = some e) (owned : ix.parent? e.handle = some owner) :
    ∃ p, ix.get? owner = some p ∧ ix.HasChild p e := by
  obtain ⟨p, at_owner⟩ := knows_iff_get?.mp (sound.owner_known owned)
  have same := sound.handle_eq at_owner
  subst same
  refine ⟨p, at_owner, sound.mem_elements_iff.mpr at_owner, sound.mem_children_iff.mpr ⟨found, ?_⟩⟩
  rw [← parent?_of_get? found, owned]

/-- An element whose owner is a type is a member of this type, found by its key. -/
theorem Index.Sound.hasMember {ix : Index} (sound : ix.Sound) {e : Element} {owner : Handle}
    {key : String} (found : ix.get? e.handle = some e) (owned : ix.parent? e.handle = some owner)
    (isType : ix.IsType owner key) : ∃ p, ix.HasChild p e ∧ p.kind = .type ∧ p.key = key := by
  obtain ⟨p, at_owner, child⟩ := sound.hasChild found owned
  obtain ⟨named, is⟩ := isType
  rw [key?_of_get? at_owner, Option.some.injEq] at named
  rw [kind?_of_get? at_owner, Option.some.injEq] at is
  exact ⟨p, child, is, named⟩

namespace Analysis

variable {config : Config} {visitors : List (External σ × Subscription)}
  {artifacts : List Artifact} {a : Analysis}

/-- The shape at the end of a run without sources.  The last metrics change neither keys nor kinds
nor owners. -/
theorem shaped_of_run (ran : run config visitors [] artifacts = .ok a) :
    a.findings.toModel.Sound ∧
      a.findings.Shaped (accepted (artifacts.flatMap Artifact.classes)) := by
  have begun : Arranged (start config visitors).roster.badges [] [] (start config visitors) :=
    ⟨start_underway config visitors, .empty _, .empty _ _⟩
  have scanned : (scanning [] artifacts).Runs (start config visitors)
      (fun _ t => t.findings.toModel.Sound ∧
        t.findings.Shaped (accepted (artifacts.flatMap Artifact.classes)))
      (Stopped (start config visitors).roster.badges) := by
    unfold scanning
    refine (SourceScan.run_nil_arranged begun).bind fun _ s arranged => ?_
    refine ((BytecodeScan.steps_arranged _).run artifacts arranged).bind ?_
    rintro - t ⟨types, arranged'⟩
    refine .of_ends ((finish_runs arranged'.toUnderway).mono fun _ u finished => ?_)
    have closes := finished.closes
    refine ⟨finished.sane.sound, ?_⟩
    unfold Findings.Shaped
    rw [closes.config]
    exact arranged'.shaped.reshape closes.grows closes.keys closes.kinds closes.parents
  obtain ⟨t, ended, same⟩ := session_of_run ran
  rw [same]
  exact scanned.ok ended

/-- **A model without sources has one shape.**  Whatever the artifacts hold, there is at most one
project, at the top; packages are its children; a type is that of a class, the first one decoded
with its key, and is a child of its package, or of the project if it has none; a member is a child
of a type, and is declared by the class of this type; a placeholder has neither owner nor children;
and there are no files. -/
theorem bytecode_model_shape (ran : run config visitors [] artifacts = .ok a) :
    let classes := accepted (artifacts.flatMap Artifact.classes)
    let elements := a.index.elements.toList
    (∀ e ∈ elements, ∀ e' ∈ elements, e.kind = .project → e'.kind = .project → e = e') ∧
      ∀ e ∈ elements,
        (e.kind = .project → e.parent = none) ∧
        (e.kind = .package → ∃ p, a.index.HasChild p e ∧ p.kind = .project) ∧
        (e.kind = .type → (∃ c ∈ classes, c.key = e.key) ∧
          ∃ p, a.index.HasChild p e ∧
            (∀ package, Key.package? e.key = some package → p.kind = .package ∧ p.key = package) ∧
            (Key.package? e.key = none → p.kind = .project)) ∧
        (e.kind = .field → ∃ p, a.index.HasChild p e ∧ p.kind = .type ∧
          ∃ c ∈ classes, c.key = p.key ∧ ∃ f ∈ c.fields, e.key = Key.member p.key f.name) ∧
        (e.kind = .method → ∃ p, a.index.HasChild p e ∧ p.kind = .type ∧
          ∃ c ∈ classes, c.key = p.key ∧ ∃ m ∈ c.methods, e.key = Key.member p.key m.signature) ∧
        (e.kind = .external → e.parent = none ∧ e.children = []) ∧
        e.kind ≠ .file := by
  obtain ⟨model, shaped⟩ := shaped_of_run ran
  have sound : a.index.Sound := model.index
  have found {e : Element} (listed : e ∈ a.index.elements.toList) :=
    sound.mem_elements_iff.mp listed
  have place {e : Element} (listed : e ∈ a.index.elements.toList) {kind : Kind}
      (is : e.kind = kind) : a.index.Belongs a.findings.config.projectKey
        (accepted (artifacts.flatMap Artifact.classes)) e.handle e.key kind := by
    subst is
    exact shaped.place (Index.key?_of_get? (found listed)) (Index.kind?_of_get? (found listed))
  refine ⟨fun e listed e' listed' is is' => ?_, fun e listed => ⟨fun is => ?_, fun is => ?_,
    fun is => ⟨(place listed is).1, ?_⟩, fun is => ?_, fun is => ?_, fun is => ⟨?_, ?_⟩,
    fun is => place listed is⟩⟩
  · have named : a.index.key? e.handle = some a.findings.config.projectKey := by
      rw [Index.key?_of_get? (found listed), (place listed is).1]
    have named' : a.index.key? e'.handle = some a.findings.config.projectKey := by
      rw [Index.key?_of_get? (found listed'), (place listed' is').1]
    -- both projects have the configured key
    have same := sound.key?_injective named named'
    have both := found listed
    rw [same, found listed', Option.some.injEq] at both
    exact both.symm
  · rw [← Index.parent?_of_get? (found listed)]
    exact (place listed is).2
  · obtain ⟨owner, owned, above⟩ := place listed is
    obtain ⟨p, at_owner, child⟩ := sound.hasChild (found listed) owned
    rw [Index.kind?_of_get? at_owner, Option.some.injEq] at above
    exact ⟨p, child, above⟩
  · obtain ⟨-, owner, owned, houses⟩ := place listed is
    obtain ⟨p, at_owner, child⟩ := sound.hasChild (found listed) owned
    refine ⟨p, child, fun package packaged => ?_, fun packaged => ?_⟩
    · rw [packaged, Index.Houses, Index.kind?_of_get? at_owner, Index.key?_of_get? at_owner,
        Option.some.injEq, Option.some.injEq] at houses
      exact houses.symm
    · rw [packaged, Index.Houses, Index.kind?_of_get? at_owner, Option.some.injEq] at houses
      exact houses
  · obtain ⟨c, accepted, f, declared, named, owner, owned, isType⟩ := place listed is
    obtain ⟨p, child, type, same⟩ := sound.hasMember (found listed) owned isType
    refine ⟨p, child, type, c, accepted, same.symm, f, declared, ?_⟩
    rw [named, same]
    rfl
  · obtain ⟨c, accepted, m, declared, named, owner, owned, isType⟩ := place listed is
    obtain ⟨p, child, type, same⟩ := sound.hasMember (found listed) owned isType
    refine ⟨p, child, type, c, accepted, same.symm, m, declared, ?_⟩
    rw [named, same]
    rfl
  · rw [← Index.parent?_of_get? (found listed)]
    exact place listed is
  · refine List.eq_nil_iff_forall_not_mem.mpr fun child isChild => ?_
    rw [← Index.childrenOf_of_get? (found listed), sound.mem_childrenOf_iff] at isChild
    -- an owner is never a placeholder
    obtain ⟨above, aboveIs, possible⟩ := shaped.owner_kind isChild
    cases aboveIs.symm.trans ((Index.kind?_of_get? (found listed)).trans (congrArg some is))
    rcases possible with impossible | impossible | impossible <;> cases impossible

/-- A class whose superclass is decoded later, in a package of its own; a class with the key of a
field, one that is there already, and one with the key of a package. -/
def jumble : List Artifact :=
  let plain (key : String) (fields : List Field) : ClassFacts :=
    { key := key, superclass := none, interfaces := [], fields := fields, methods := [] }
  let first : ClassFacts :=
    { key := "p/A", superclass := some "q/B", interfaces := [], fields := [⟨"x"⟩],
      methods := [⟨"m()V", [.call ⟨0, "Lone", "n()V"⟩]⟩] }
  [{ path := "a.jar", classes := [first, plain "p/A#x" [], plain "p/A" [⟨"z"⟩]],
      error := some (.malformed "cut off") },
    { path := "b.jar", classes := [plain "q/B" [⟨"y"⟩], plain "q" []], error := none }]

theorem bytecode_model_shape_jumble :
    ∃ a, run {} ([] : List (External Unit × Subscription)) [] jumble = .ok a ∧
      (a.index.elements.toList.map fun e => (e.key, e.kind, e.parent)) =
        [("project", .project, none), ("p", .package, some ⟨0⟩), ("p/A", .type, some ⟨1⟩),
          ("q/B", .type, some ⟨7⟩), ("p/A#x", .field, some ⟨2⟩), ("p/A#m()V", .method, some ⟨2⟩),
          ("Lone", .external, none), ("q", .package, some ⟨0⟩), ("q/B#y", .field, some ⟨3⟩)] ∧
      ∀ e ∈ a.index.elements.toList, e.kind = .field → ∃ p, a.index.HasChild p e ∧
        p.kind = .type ∧ ∃ c ∈ accepted (jumble.flatMap Artifact.classes), c.key = p.key ∧
          ∃ f ∈ c.fields, e.key = Key.member p.key f.name := by
  have evaluated : ((run {} ([] : List (External Unit × Subscription)) [] jumble).toOption.map
      fun a => a.index.elements.toList.map fun e => (e.key, e.kind, e.parent)) =
        some [("project", .project, none), ("p", .package, some ⟨0⟩), ("p/A", .type, some ⟨1⟩),
          ("q/B", .type, some ⟨7⟩), ("p/A#x", .field, some ⟨2⟩), ("p/A#m()V", .method, some ⟨2⟩),
          ("Lone", .external, none), ("q", .package, some ⟨0⟩), ("q/B#y", .field, some ⟨3⟩)] := by
    decide +kernel
  cases ran : run {} ([] : List (External Unit × Subscription)) [] jumble with
  | error e =>
      rw [ran] at evaluated
      cases evaluated
  | ok a =>
      rw [ran] at evaluated
      refine ⟨a, rfl, Option.some.inj evaluated, fun e listed is => ?_⟩
      obtain ⟨-, places⟩ := bytecode_model_shape ran
      obtain ⟨-, -, -, member, -⟩ := places e listed
      exact member is

end Analysis

end CodeMetrics
