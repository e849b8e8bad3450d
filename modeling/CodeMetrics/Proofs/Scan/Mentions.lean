import CodeMetrics.Proofs.Scan.ClassMeasures
import Mathlib.Data.Finset.Dedup

/-!
# What is said about a class

The story of a run tells of the classes that it has scanned: those that were accepted and are types
in the end, each with the methods that are methods in the end (`Index.scanned`).  About one class it
says that it has these methods, and that it has those references of the run that were applied
(`applied`).  So what the visitors of the analysis itself have found can be said by keys
(`Analysis.class_measures`).
-/

namespace CodeMetrics

open Scanning Session

variable {σ : Type}

/-! ## Scanned classes -/

namespace Index

/-- Whether a key has this kind. -/
def isA (ix : Index) (key : String) (kind : Kind) : Bool := (ix.find? key).any (·.kind == kind)

theorem isSome_registered? (ix : Index) (key : String) (kind : Kind) :
    (ix.registered? key kind).isSome = ix.isA key kind := by
  rw [registered?, isA, Option.isSome_map, Option.isSome_filter]

theorem isA_iff {ix : Index} {key : String} {kind : Kind} :
    ix.isA key kind = true ↔ ∃ h, ix.registered? key kind = some h := by
  rw [← isSome_registered?, Option.isSome_iff_exists]

/-- A class with those of its methods that are methods of the index. -/
def registered (ix : Index) (c : ClassFacts) : ClassFacts :=
  { c with methods := c.methods.filter fun m => ix.isA (c.methodKey m) .method }

/-- The classes that a scan which ends with this index has scanned. -/
def scanned (ix : Index) (classes : List ClassFacts) : List ClassFacts :=
  ((accepted classes).filter fun c => ix.isA c.key .type).map ix.registered

variable {ix : Index} {c c' : ClassFacts} {classes : List ClassFacts} {m : Method}

theorem mem_methods_registered_iff :
    m ∈ (ix.registered c).methods ↔
      m ∈ c.methods ∧ ∃ h, ix.registered? (c.methodKey m) .method = some h := by
  rw [registered, List.mem_filter, isA_iff]

end Index

/-- Accepted classes differ in their keys. -/
theorem eq_of_mem_accepted {classes : List ClassFacts} {c c' : ClassFacts}
    (listed : c ∈ accepted classes) (listed' : c' ∈ accepted classes) (same : c.key = c'.key) :
    c = c' :=
  List.inj_on_of_nodup_map (nodup_map_firstBy ClassFacts.key [] classes) listed listed' same

/-! ## References -/

/-- The reference of an event, with the keys of the class and of the method that hold it. -/
def Event.use? : Event → Option Use
  | .reference visit => some ⟨visit.typeKey, visit.methodKey, visit.reference⟩
  | _ => none

namespace Event

theorem place?_eq_use? (e : Event) : e.place? = e.use?.map Use.place := by
  cases e <;> rfl

/-- Of the references at one place the first is left, which is what an outline applies. -/
theorem filterMap_use?_withoutRepeats (seen : List (String × UInt32)) (l : List Event) :
    (withoutRepeats seen l).filterMap use? = firstBy Use.place seen (l.filterMap use?) := by
  induction l generalizing seen with
  | nil => rfl
  | cons e rest ih =>
      rw [withoutRepeats, place?_eq_use?]
      cases used : e.use? with
      | none =>
          rw [Option.map_none, @List.filterMap_cons_none _ _ use? e rest used]
          exact (List.filterMap_cons_none used).trans (ih seen)
      | some u =>
          rw [Option.map_some, List.filterMap_cons_some used, firstBy]
          dsimp only
          split
          · exact ih seen
          · exact (List.filterMap_cons_some used).trans (congrArg _ (ih _))

/-- What is no reference is not dropped. -/
theorem mem_withoutRepeats {e : Event} {l : List Event} (listed : e ∈ l) (plain : e.place? = none)
    (seen : List (String × UInt32)) : e ∈ withoutRepeats seen l := by
  have kept : e ∈ l.filter fun e => e.place?.isNone :=
    List.mem_filter.mpr ⟨listed, by rw [plain]; rfl⟩
  rw [← filter_withoutRepeats (fun e plain => Option.isNone_iff_eq_none.mp plain) seen] at kept
  exact (List.mem_filter.mp kept).1

end Event

/-- Elements that contribute nothing can be left out. -/
theorem flatMap_ite {α β : Type} (test : α → Bool) (f : α → List β) (l : List α) :
    (l.flatMap fun a => if test a then f a else []) = (l.filter test).flatMap f := by
  induction l with
  | nil => rfl
  | cons a rest ih =>
      rw [List.flatMap_cons, ih, List.filter_cons]
      split
      · rfl
      · rfl

namespace BytecodeScan

variable {ix : Index} {c : ClassFacts} {type : Handle}

theorem filterMap_use?_memberEvents (m : Method) :
    (memberEvents ix c type m).filterMap Event.use? =
      if ix.isA (c.methodKey m) .method then c.usesOf m else [] := by
  rw [← Index.isSome_registered?]
  unfold memberEvents
  cases ix.registered? (c.methodKey m) .method with
  | none => rfl
  | some h =>
      have plain : (methodEvent c type m h).use? = none := rfl
      rw [List.filterMap_cons_none plain, List.filterMap_map]
      exact congrFun List.filterMap_eq_map m.body

theorem filterMap_use?_classEvents (ix : Index) (c : ClassFacts) :
    (classEvents ix c).filterMap Event.use? =
      if ix.isA c.key .type then (ix.registered c).uses else [] := by
  rw [← Index.isSome_registered?]
  unfold classEvents
  cases ix.registered? c.key .type with
  | none => rfl
  | some type =>
      have opening : (Event.type (typeVisit c type)).use? = none := rfl
      simp only [List.filterMap_cons_none opening, List.filterMap_append, List.filterMap_flatMap,
        filterMap_use?_memberEvents, flatMap_ite]
      exact List.append_nil _

/-- The references that the story tells of are the ones that are applied. -/
theorem filterMap_use?_story (ix : Index) (classes : List ClassFacts) :
    (Event.withoutRepeats [] ((accepted classes).flatMap (classEvents ix))).filterMap Event.use? =
      applied (ix.scanned classes) := by
  rw [Event.filterMap_use?_withoutRepeats, List.filterMap_flatMap]
  simp only [filterMap_use?_classEvents, flatMap_ite]
  rw [applied, Index.scanned, List.flatMap_map]

end BytecodeScan

/-! ## The story of one class -/

namespace Event

theorem mention?_eq_method_iff {e : Event} {type : Handle} {key : String} :
    e.mention? type = some (.method key) ↔
      ∃ visit, e = .method visit ∧ visit.phase = .bytecode ∧ visit.owner = some type ∧
        visit.key = key := by
  cases e with
  | method visit => simp [mention?, and_assoc]
  | reference visit => simp [mention?]
  | _ => simp [mention?]

theorem mention?_eq_reference_iff {e : Event} {type : Handle} {u : Use} :
    e.mention? type = some (.reference u) ↔
      ∃ visit, e = .reference visit ∧ visit.element = type ∧ e.use? = some u := by
  cases e with
  | reference visit => simp [mention?, use?]
  | _ => simp [mention?, use?]

/-- Without the owners of methods in source files the mentions are the same. -/
theorem mention?_unowned (type : Handle) (e : Event) :
    e.unowned.mention? type = e.mention? type := by
  cases e with
  | method visit =>
      rw [unowned]
      cases phase : visit.phase <;> simp [mention?, phase]
  | _ => rfl

end Event

namespace Analysis

variable {ix : Index} {sources : List SourceFile} {artifacts : List Artifact} {c : ClassFacts}
  {type : Handle} {e : Event}

/-- In the bytecode scan the story is about accepted classes. -/
theorem mem_story_iff (bytecode : e.phase = .bytecode) (goes_on : e.kind ≠ .endScan) :
    e ∈ story ix sources artifacts ↔
      e ∈ Event.withoutRepeats []
        ((accepted (artifacts.flatMap Artifact.classes)).flatMap (BytecodeScan.classEvents ix)) := by
  rw [story, List.mem_append, bytecodeStory, List.mem_append, List.mem_singleton]
  constructor
  · rintro (source | told | rfl)
    · rw [phase_of_mem_sourceStory source] at bytecode
      cases bytecode
    · exact told
    · exact absurd rfl goes_on
  · exact fun told => .inr (.inl told)

variable (coherent : ix.Coherent) (listed : c ∈ accepted (artifacts.flatMap Artifact.classes))
  (is : ix.registered? c.key .type = some type)
include coherent listed is

/-- Where a class is told of by its type, it is this one. -/
theorem eq_of_registered {c' : ClassFacts}
    (listed' : c' ∈ accepted (artifacts.flatMap Artifact.classes))
    (is' : ix.registered? c'.key .type = some type) : c' = c := by
  refine eq_of_mem_accepted listed' listed (Option.some.inj ?_)
  exact ((Index.registered?_eq_some_iff coherent).mp is').1.symm.trans
    ((Index.registered?_eq_some_iff coherent).mp is).1

/-- The methods that the story mentions of a class are those of the class that were registered under
their keys. -/
theorem method_mem_mentions_iff {key : String} :
    .method key ∈ (story ix sources artifacts).filterMap (Event.mention? type) ↔
      key ∈ (ix.registered c).methods.map c.methodKey := by
  simp only [List.mem_filterMap, Event.mention?_eq_method_iff, List.mem_map,
    Index.mem_methods_registered_iff]
  constructor
  · rintro ⟨_, told, visit, rfl, phase, owner, rfl⟩
    have bytecode : (Event.method visit).phase = .bytecode := phase
    have told := (Event.withoutRepeats_sublist _ _).mem
      ((mem_story_iff bytecode (by rintro ⟨⟩)).mp told)
    obtain ⟨c', listed', told⟩ := List.mem_flatMap.mp told
    obtain ⟨type', is', ⟨⟨⟩⟩ | ⟨⟨⟩⟩ | ⟨m, declared, h, accepted, ⟨⟨⟩⟩ | ⟨r, -, ⟨⟩⟩⟩⟩ :=
      BytecodeScan.mem_classEvents_iff.mp told
    cases owner
    obtain rfl := eq_of_registered coherent listed is listed' is'
    exact ⟨m, ⟨declared, h, accepted⟩, rfl⟩
  · rintro ⟨m, ⟨declared, h, accepted⟩, rfl⟩
    have told : BytecodeScan.methodEvent c type m h ∈ BytecodeScan.classEvents ix c :=
      BytecodeScan.mem_classEvents_iff.mpr
        ⟨type, is, .inr (.inr ⟨m, declared, h, accepted, .inl rfl⟩)⟩
    refine ⟨BytecodeScan.methodEvent c type m h, ?_, _, rfl, rfl, rfl, rfl⟩
    rw [mem_story_iff rfl (by rintro ⟨⟩)]
    exact Event.mem_withoutRepeats (List.mem_flatMap.mpr ⟨c, listed, told⟩) rfl []

omit listed in
/-- The references that the story mentions of a class are those of the class that are applied: of
several at one place, the first. -/
theorem reference_mem_mentions_iff {u : Use} :
    .reference u ∈ (story ix sources artifacts).filterMap (Event.mention? type) ↔
      u ∈ applied (ix.scanned (artifacts.flatMap Artifact.classes)) ∧ u.type = c.key := by
  -- the class of a reference is known by its type, and by the key of it
  have same {visit : ReferenceVisit} (told : .reference visit ∈ Event.withoutRepeats []
      ((accepted (artifacts.flatMap Artifact.classes)).flatMap (BytecodeScan.classEvents ix))) :
      visit.element = type ↔ visit.typeKey = c.key := by
    obtain ⟨c', listed', told⟩ :=
      List.mem_flatMap.mp ((Event.withoutRepeats_sublist _ _).mem told)
    obtain ⟨type', is', ⟨⟨⟩⟩ | ⟨⟨⟩⟩ | ⟨m, declared, h, accepted, ⟨⟨⟩⟩ | ⟨r, -, ⟨⟩⟩⟩⟩ :=
      BytecodeScan.mem_classEvents_iff.mp told
    rw [Index.registered?_eq_some_iff coherent] at is is'
    constructor
    · rintro rfl
      exact Option.some.inj (is'.1.symm.trans is.1)
    · intro same
      have same : c'.key = c.key := same
      rw [same] at is'
      exact coherent.key?_injective is'.1 is.1
  rw [← BytecodeScan.filterMap_use?_story]
  simp only [List.mem_filterMap, Event.mention?_eq_reference_iff]
  constructor
  · rintro ⟨_, told, visit, rfl, element, used⟩
    have told := (mem_story_iff rfl (by rintro ⟨⟩)).mp told
    refine ⟨⟨_, told, used⟩, ?_⟩
    cases used
    exact (same told).mp element
  · rintro ⟨⟨e, told, used⟩, type⟩
    cases e with
    | reference visit =>
        refine ⟨_, (mem_story_iff rfl (by rintro ⟨⟩)).mpr told, visit, rfl, ?_, used⟩
        cases used
        exact (same told).mpr type
    | _ => cases used

end Analysis

/-! ## Runs -/

/-- The mentions are those of a class: the methods that were registered, and the references that
were applied. -/
structure Mention.Cover (ix : Index) (classes : List ClassFacts) (c : ClassFacts)
    (ms : List Mention) : Prop where
  method_iff : ∀ {key : String},
    .method key ∈ ms ↔ key ∈ (ix.registered c).methods.map c.methodKey
  reference_iff : ∀ {u : Use},
    .reference u ∈ ms ↔ u ∈ applied (ix.scanned classes) ∧ u.type = c.key

namespace Analysis

variable {config : Config} {sources : List SourceFile} {artifacts : List Artifact}
  {s t declared : Session σ} {events : List Event}

/-- The visitors of the analysis itself receive every event of the bytecode scan but the last one,
and nothing else. -/
theorem received_own
    (told : t.told = events.flatMap
      (Badge.deliveries (start config ([] : List (External σ × Subscription))).roster.badges)) :
    t.received 0 = events.filter fun e => e.phase == .bytecode && e.kind != .endScan := by
  have found : (start config ([] : List (External σ × Subscription))).roster.badges[0]? =
      some (Subscriber.badge (σ := σ) ⟨.response {}, .bytecode⟩) := rfl
  have calls (e : Event) :
      List.replicate ((Subscriber.badge (σ := σ) ⟨.response {}, .bytecode⟩).calls e.phase e.kind) e =
        if e.phase == .bytecode && e.kind != .endScan then [e] else [] := by
    cases e.phase <;> cases e.kind <;> rfl
  rw [Session.received_eq told found]
  simp only [calls, flatMap_ite]
  exact List.flatMap_singleton' _

/-- What was said about a class is what the story mentions. -/
theorem mentions_eq
    (told : t.told = events.flatMap
      (Badge.deliveries (start config ([] : List (External σ × Subscription))).roster.badges))
    {ix : Index} (same : events.map Event.unowned = story ix sources artifacts) (type : Handle) :
    t.mentions type = (story ix sources artifacts).filterMap (Event.mention? type) := by
  have unowned : Event.mention? type ∘ Event.unowned = Event.mention? type :=
    funext (Event.mention?_unowned type)
  rw [mentions, received_own told, ← same, List.filterMap_map, unowned, List.filterMap_filter]
  refine List.filterMap_congr fun e _ => ?_
  cases e with
  | method visit =>
      cases phase : visit.phase <;> simp [Event.mention?, Event.phase, Event.kind, phase]
  | reference visit => rfl
  | _ => split <;> rfl

/-- The response visitor is told of the type of every accepted class that is registered in the end.
-/
theorem type_mem_received
    (told : t.told = events.flatMap
      (Badge.deliveries (start config ([] : List (External σ × Subscription))).roster.badges))
    {ix : Index} (same : events.map Event.unowned = story ix sources artifacts) {c : ClassFacts}
    (listed : c ∈ accepted (artifacts.flatMap Artifact.classes)) {type : Handle}
    (is : ix.registered? c.key .type = some type) :
    .type (BytecodeScan.typeVisit c type) ∈ t.received 0 := by
  have opening : .type (BytecodeScan.typeVisit c type) ∈ BytecodeScan.classEvents ix c :=
    BytecodeScan.mem_classEvents_iff.mpr ⟨type, is, .inl rfl⟩
  have mentioned : .type (BytecodeScan.typeVisit c type) ∈ story ix sources artifacts := by
    rw [mem_story_iff rfl (by rintro ⟨⟩)]
    exact Event.mem_withoutRepeats (List.mem_flatMap.mpr ⟨c, listed, opening⟩) rfl []
  rw [← same] at mentioned
  obtain ⟨e, listed, unowned⟩ := List.mem_map.mp mentioned
  rw [received_own told, List.mem_filter]
  cases e with
  | type visit =>
      cases unowned
      exact ⟨listed, rfl⟩
  | method visit =>
      rw [Event.unowned] at unowned
      split at unowned <;> cases unowned
  | _ => cases unowned

/-- **The measures of the classes.**  In a run without external visitors every class that was
scanned has the measures that its own methods and references give, together with the methods that
source files have declared for it.  What has no class has the methods of the source files only. -/
theorem class_measures
    (sourced : (SourceScan.run sources).runOn (start config []) = (.ok (), declared))
    (artifacts : List Artifact) :
    ∃ a, run config ([] : List (External σ × Subscription)) sources artifacts = .ok a ∧
      a.index.Sound ∧
      (∀ {owner key : String}, owner ∉ (artifacts.flatMap Artifact.classes).map ClassFacts.key →
        (a.index.OwnsMethod owner key ↔ declared.findings.index.OwnsMethod owner key)) ∧
      ∀ {c : ClassFacts} {type : Handle}, c ∈ accepted (artifacts.flatMap Artifact.classes) →
        a.index.registered? c.key .type = some type →
        ∃ ms, Mention.Cover a.index (artifacts.flatMap Artifact.classes) c ms ∧
          a.findings.Rates config declared.findings.index (BytecodeScan.typeVisit c type) ms := by
  obtain ⟨⟨⟩, t, run, types, s, accounted, finished⟩ := scanning_accounted sourced artifacts
  obtain ⟨events, told, same⟩ := (scanning_tells config [] sources artifacts).ok run
  have sound := finished.sane.sound.index
  have received : t.received 0 = s.received 0 := by
    rw [Session.received, finished.transcript]
    rfl
  refine ⟨⟨t.findings⟩, ?_, sound, fun {owner key} fresh => ?_, fun {c type} listed is => ?_⟩
  · have session : runSession config [] sources artifacts = (.ok (), t) := run
    rw [Analysis.run, session]
    rfl
  · have closes := finished.closes.toRemeasures
    rw [← accounted.spares.ownsMethod_iff fun h entered named => ?_]
    · exact Index.ownsMethod_congr closes.keys closes.kinds closes.parents
    · obtain ⟨c, read, named'⟩ := accounted.spares.scanned entered
      cases named.symm.trans named'
      exact fresh (List.mem_map_of_mem read)
  · have visited := type_mem_received told same listed is
    refine ⟨t.mentions type, ⟨?_, ?_⟩, ?_⟩
    · rw [mentions_eq told same]
      exact method_mem_mentions_iff sound.toCoherent listed is
    · rw [mentions_eq told same]
      exact reference_mem_mentions_iff sound.toCoherent is
    · have mentions : t.mentions type = s.mentions type := by
        rw [Session.mentions, received]
        rfl
      rw [received] at visited
      rw [mentions]
      -- the last metrics have other names, so they leave these two alone
      have rfc : Metric.rfc.name ∉ closingMetrics.map Metric.name := by decide
      have lcom4 : Metric.lcom4.name ∉ closingMetrics.map Metric.name := by decide
      exact (accounted.rated.rates visited (accounted.rated.visited visited)).congr
        (measure?_of_closes finished.closes fun closing => absurd closing rfc)
        (measure?_of_closes finished.closes fun closing => absurd closing lcom4)

/-! ## Classes by key -/

section ByKey

variable {a : Analysis} {c : ClassFacts} {key : String}

/-- The keys of the methods of a class that were registered. -/
def registeredKeys (a : Analysis) (c : ClassFacts) : Finset String :=
  ((a.index.registered c).methods.map c.methodKey).toFinset

/-- The references of a class that were applied. -/
def appliedUses (a : Analysis) (artifacts : List Artifact) (c : ClassFacts) : List Use :=
  (applied (a.index.scanned (artifacts.flatMap Artifact.classes))).filter (·.type == c.key)

theorem mem_appliedUses {u : Use} :
    u ∈ a.appliedUses artifacts c ↔
      u ∈ applied (a.index.scanned (artifacts.flatMap Artifact.classes)) ∧ u.type = c.key := by
  rw [appliedUses, List.mem_filter, beq_iff_eq]

/-- A metric of a key is the measure of its handle. -/
theorem metric?_eq (coherent : a.index.Coherent) {h : Handle} (named : a.index.key? h = some key)
    (metric : Metric) : a.metric? key metric = a.index.measure? h metric.name := by
  obtain ⟨e, found, rfl⟩ := Option.map_eq_some_iff.mp named
  have at_handle := coherent.handle_eq found
  rw [metric?, find?, coherent.find?_eq_some_iff.mpr ⟨at_handle ▸ found, rfl⟩, Option.bind_some,
    Index.measure?_of_get? _ found]
  rfl

end ByKey

end Analysis

end CodeMetrics
