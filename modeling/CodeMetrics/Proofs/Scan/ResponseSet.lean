import CodeMetrics.Proofs.Scan.Mentions
import CodeMetrics.Proofs.Scan.MeasuresByKey

/-!
# The response set of a class

The response set of a class holds the methods that it had when its scan began, the methods that it
declares, and the methods that it calls.  `Analysis.response_counts_declared_and_called` says that
the metric is the size of this set: nothing else contributes, and nothing is counted twice.
-/

namespace CodeMetrics

variable {σ : Type}

/-- The key of the method that a reference calls. -/
def Use.callee? (u : Use) : Option String :=
  match u.reference with
  | .call _ => some u.reference.target
  | .access _ => none

/-- A class is accepted if there is none of its key before it. -/
theorem mem_accepted_of_first {earlier later : List ClassFacts} {c : ClassFacts}
    (first : c.key ∉ earlier.map ClassFacts.key) : c ∈ accepted (earlier ++ c :: later) := by
  have fresh : c.key ∉ earlier.map ClassFacts.key ++ [] := by rwa [List.append_nil]
  rw [accepted, firstBy_append, firstBy, if_neg fresh]
  exact List.mem_append_right _ (List.mem_cons_self ..)

namespace Analysis

variable {config : Config} {sources : List SourceFile} {artifacts : List Artifact} {a : Analysis}
  {c : ClassFacts} {key : String}

/-- The keys of the methods that the element of a key owns. -/
def methodKeys (a : Analysis) (owner : String) : Finset String :=
  ((a.index.members owner .method).map Element.key).toFinset

/-- The keys of the methods that a class calls. -/
def calledKeys (a : Analysis) (artifacts : List Artifact) (c : ClassFacts) : Finset String :=
  ((a.appliedUses artifacts c).filterMap Use.callee?).toFinset

theorem mem_methodKeys (sound : a.index.Sound) {owner : String} :
    key ∈ a.methodKeys owner ↔ a.index.OwnsMethod owner key := by
  rw [methodKeys, List.mem_toFinset, sound.mem_keys_members_iff]

/-- The mentions of a class respond with what it declares and calls.  Accesses to fields do not
count. -/
theorem responds_iff {ms : List Mention}
    (cover : Mention.Cover a.index (artifacts.flatMap Artifact.classes) c ms) :
    (∃ m ∈ ms, m.responds = some key) ↔
      key ∈ a.registeredKeys c ∨ key ∈ a.calledKeys artifacts c := by
  simp only [registeredKeys, calledKeys, List.mem_toFinset, List.mem_filterMap, mem_appliedUses,
    ← cover.method_iff, ← cover.reference_iff]
  constructor
  · rintro ⟨m, listed, responds⟩
    cases m with
    | method k =>
        cases responds
        exact .inl listed
    | reference u => exact .inr ⟨u, listed, responds⟩
  · rintro (listed | ⟨u, listed, callee⟩)
    · exact ⟨_, listed, rfl⟩
    · exact ⟨_, listed, callee⟩

/-- **The response set counts what is declared or called.**  Without external visitors every run
gives an analysis.  Let a class be the first one of its key, and let the key be a type in the end.
Then its response set has as many elements as these three sets together: the methods that its type
had when the scan reached the class, which are those of the source files; the methods of the class
that were registered; and the targets of those of its calls that were applied, which are the first of
their method and site in the run. -/
theorem response_counts_declared_and_called (config : Config) (sources : List SourceFile)
    (before after : List Artifact) (path : String) (early late : List ClassFacts)
    (error : Option DecodeError) (c : ClassFacts) :
    let artifacts := before ++ ⟨path, early ++ c :: late, error⟩ :: after
    ∃ a reached declared : Analysis,
      run config ([] : List (External σ × Subscription)) sources artifacts = .ok a ∧
      run config ([] : List (External σ × Subscription)) sources
        (before ++ [⟨path, early, none⟩]) = .ok reached ∧
      run config ([] : List (External σ × Subscription)) sources [] = .ok declared ∧
      (c.key ∉ (before.flatMap Artifact.classes ++ early).map ClassFacts.key →
        (a.find? c.key).map Element.kind = some .type →
        reached.methodKeys c.key = declared.methodKeys c.key ∧
        a.metric? c.key .rfc = some (.ofCount
          (reached.methodKeys c.key ∪ a.registeredKeys c ∪ a.calledKeys artifacts c).card)) := by
  intro artifacts
  obtain ⟨⟨⟩, s, sourced, -⟩ := sources_accounted (σ := σ) config sources
  obtain ⟨a, ran, sound, -, measured⟩ := class_measures sourced artifacts
  obtain ⟨reached, ran₁, sound₁, spared₁, -⟩ :=
    class_measures sourced (before ++ [⟨path, early, none⟩])
  obtain ⟨declared, ran₀, sound₀, spared₀, -⟩ := class_measures sourced []
  refine ⟨a, reached, declared, ran, ran₁, ran₀, fun first typed => ?_⟩
  have classes₁ : (before ++ [Artifact.mk path early none]).flatMap Artifact.classes =
      before.flatMap Artifact.classes ++ early := by
    rw [List.flatMap_append, List.flatMap_singleton]
  have classes : artifacts.flatMap Artifact.classes =
      (before.flatMap Artifact.classes ++ early) ++ c :: (late ++ after.flatMap Artifact.classes) := by
    simp [artifacts]
  -- no class of this key came before, so the type still has the methods of the source files only
  have owned₁ (key : String) :
      key ∈ reached.methodKeys c.key ↔ s.findings.index.OwnsMethod c.key key := by
    rw [mem_methodKeys sound₁]
    exact spared₁ (by rw [classes₁]; exact first)
  have owned₀ (key : String) :
      key ∈ declared.methodKeys c.key ↔ s.findings.index.OwnsMethod c.key key := by
    rw [mem_methodKeys sound₀]
    exact spared₀ List.not_mem_nil
  obtain ⟨type, named, is⟩ := Index.has_of_find? sound.toCoherent typed
  have listed : c ∈ accepted (artifacts.flatMap Artifact.classes) := by
    rw [classes]
    exact mem_accepted_of_first first
  obtain ⟨ms, cover, rates⟩ :=
    measured listed ((Index.registered?_eq_some_iff sound.toCoherent).mpr ⟨named, is⟩)
  obtain ⟨methods, nodup, owned, measure⟩ := rates.response
  refine ⟨Finset.ext fun key => (owned₁ key).trans (owned₀ key).symm, ?_⟩
  -- the response set is a list without repetitions of just these keys
  have members : (ms.foldl respond methods).toFinset =
      reached.methodKeys c.key ∪ a.registeredKeys c ∪ a.calledKeys artifacts c := by
    ext key
    rw [List.mem_toFinset, mem_foldl_respond, responds_iff cover, Finset.mem_union,
      Finset.mem_union, or_assoc, owned₁]
    exact or_congr_left (owned key)
  rw [metric?_eq sound.toCoherent named, ← members,
    List.toFinset_card_of_nodup (nodup_foldl_respond nodup ms)]
  exact measure

/-! ### A class with methods of both scans -/

/-- A type with a method of its own and one that its class has, too. -/
def sketched : List SourceFile :=
  [{ path := "A.java", result := .ok
      [.type "p/A" none, .field "p/A" "x", .method "p/A" "m()V", .method "p/A" "own()V"] }]

/-- A class that calls a method of another one twice, uses one of its own fields, has two calls at
one site, and has a method that is refused. -/
def busy : ClassFacts :=
  { key := "p/A", superclass := none, interfaces := [], fields := [⟨"x"⟩]
    methods :=
      [⟨"m()V", [.call ⟨1, "p/B", "f()V"⟩, .call ⟨1, "p/C", "g()V"⟩, .call ⟨2, "p/B", "f()V"⟩]⟩,
        ⟨"n()V", [.access ⟨1, "p/A", "x"⟩, .call ⟨2, "p/A", "m()V"⟩]⟩,
        ⟨"x", [.call ⟨1, "p/D", "h()V"⟩]⟩] }

/-- A class that calls a method of the busy one. -/
def neighbour (key : String) : ClassFacts :=
  { key := key, superclass := none, interfaces := [], fields := []
    methods := [⟨"k()V", [.call ⟨1, "p/A", "z()V"⟩]⟩] }

def firstJar : Artifact := ⟨"one.jar", [neighbour "p/B"], none⟩

def secondJar : Artifact :=
  ⟨"two.jar", [neighbour "p/C"] ++ busy :: [neighbour "p/D", busy], none⟩

theorem response_counts_declared_and_called_busy :
    ∃ a : Analysis,
      run {} ([] : List (External Unit × Subscription)) sketched ([firstJar] ++ [secondJar]) =
        .ok a ∧
      busy.key ∉ ([firstJar].flatMap Artifact.classes ++ [neighbour "p/C"]).map ClassFacts.key ∧
      (a.find? busy.key).map Element.kind = some .type ∧
      a.metric? busy.key .rfc = some (.ofCount 4) := by
  have first :
      busy.key ∉ ([firstJar].flatMap Artifact.classes ++ [neighbour "p/C"]).map ClassFacts.key := by
    decide
  obtain ⟨a, reached, declared, ran, ran₁, -, counts⟩ :=
    response_counts_declared_and_called (σ := Unit) {} sketched [firstJar] [] "two.jar"
      [neighbour "p/C"] [neighbour "p/D", busy] none busy
  have ran : run {} ([] : List (External Unit × Subscription)) sketched
    ([firstJar] ++ [secondJar]) = .ok a := ran
  have typed : (run {} ([] : List (External Unit × Subscription)) sketched
      ([firstJar] ++ [secondJar])).toOption.map
      (fun a => (a.find? busy.key).map Element.kind) = some (some .type) := by
    decide +kernel
  have counted : (run {} ([] : List (External Unit × Subscription)) sketched
      ([firstJar] ++ [secondJar])).toOption.bind (fun a =>
        (run {} ([] : List (External Unit × Subscription)) sketched
          ([firstJar] ++ [⟨"two.jar", [neighbour "p/C"], none⟩])).toOption.map fun reached =>
            (reached.methodKeys busy.key ∪ a.registeredKeys busy ∪
              a.calledKeys ([firstJar] ++ [secondJar]) busy).card) = some 4 := by
    decide +kernel
  rw [ran] at typed counted
  rw [ran₁] at counted
  have typed := Option.some.inj typed
  have rfc := (counts first typed).2
  exact ⟨a, ran, first, typed,
    rfc.trans (congrArg (fun n => some (Measure.ofCount n)) (Option.some.inj counted))⟩

end Analysis

end CodeMetrics
