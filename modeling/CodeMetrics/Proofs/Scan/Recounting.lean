import CodeMetrics.Proofs.Scan.Telling

/-!
# The story is told

Class by class, the bytecode scan tells the story of the accepted ones.  Whether a class is accepted
can be said in two ways: there was none of its key before, or its type was not scanned before.  They
agree because every class so far was accepted or is refused for good (`Findings.Settles`).

A run that ends has told the story that belongs to the index it ends with
(`Analysis.scanning_tells`).
-/

namespace CodeMetrics

open Scanning Session

variable {σ : Type}

/-! ## Accepted and refused classes -/

namespace Findings

variable {f f' : Findings} {key : String}

/-- Every class so far was accepted or is refused, and the types are those of the accepted ones. -/
structure Settles (cs : List ClassFacts) (types : List Handle) (f : Findings) : Prop where
  settled : ∀ {c : ClassFacts}, c ∈ cs → (∃ h ∈ types, f.index.IsType h c.key) ∨ f.Bars c.key
  scanned : ∀ {h : Handle}, h ∈ types → ∃ c ∈ cs, f.index.IsType h c.key

namespace Settles

variable {cs : List ClassFacts} {types : List Handle} {c : ClassFacts} {h : Handle}

theorem empty (f : Findings) : f.Settles [] [] where
  settled listed := by cases listed
  scanned listed := by cases listed

theorem advances (settles : f.Settles cs types) (advances : f.Advances f') :
    f'.Settles cs types where
  settled listed := by
    rcases settles.settled listed with ⟨h, scanned, type⟩ | bars
    · exact .inl ⟨h, scanned, type.grows advances.grows⟩
    · exact .inr (advances.barred bars)
  scanned listed := by
    obtain ⟨c, done, type⟩ := settles.scanned listed
    exact ⟨c, done, type.grows advances.grows⟩

/-- A type was scanned exactly if a class of its key was there before.  A class that was refused
bars its key, and then there is no type of this key. -/
theorem mem_types_iff (settles : f.Settles cs types) (coherent : f.index.Coherent)
    (type : f.index.IsType h key) : h ∈ types ↔ key ∈ cs.map ClassFacts.key := by
  constructor
  · intro listed
    obtain ⟨c, done, type'⟩ := settles.scanned listed
    rw [type.1.symm.trans type'.1 |> Option.some.inj]
    exact List.mem_map_of_mem done
  · intro listed
    obtain ⟨c, done, rfl⟩ := List.mem_map.mp listed
    rcases settles.settled done with ⟨h', scanned, type'⟩ | bars
    · rw [coherent.key?_injective type.1 type'.1]
      exact scanned
    · exact absurd ⟨h, type⟩ bars.untyped

/-- One more class is refused, or one of its key was accepted before. -/
theorem pass (settles : f.Settles cs types)
    (settled : (∃ h ∈ types, f.index.IsType h c.key) ∨ f.Bars c.key) :
    f.Settles (cs ++ [c]) types where
  settled {c'} listed := by
    rcases List.mem_append.mp listed with old | new
    · exact settles.settled old
    · rw [List.mem_singleton.mp new]
      exact settled
  scanned listed := by
    obtain ⟨c', done, type⟩ := settles.scanned listed
    exact ⟨c', List.mem_append_left _ done, type⟩

/-- One more class is accepted. -/
theorem accept (settles : f.Settles cs types) (type : f.index.IsType h c.key) :
    f.Settles (cs ++ [c]) (h :: types) where
  settled {c'} listed := by
    rcases List.mem_append.mp listed with old | new
    · rcases settles.settled old with ⟨h', scanned, type'⟩ | bars
      · exact .inl ⟨h', List.mem_cons_of_mem _ scanned, type'⟩
      · exact .inr bars
    · rw [List.mem_singleton.mp new]
      exact .inl ⟨h, List.mem_cons_self .., type⟩
  scanned {h'} listed := by
    rcases List.mem_cons.mp listed with rfl | old
    · exact ⟨c, List.mem_append_right _ (List.mem_singleton_self c), type⟩
    · obtain ⟨c', done, type'⟩ := settles.scanned old
      exact ⟨c', List.mem_append_left _ done, type'⟩

end Settles

end Findings

/-! ## Classes -/

namespace BytecodeScan

variable {badges : List Badge} {cs : List ClassFacts} {progress : Progress} {s t : Session σ}

/-- From `s` to `t` the classes were read, and their story was told. -/
structure Recounts (badges : List Badge) (s : Session σ) (cs : List ClassFacts)
    (progress : Progress) (t : Session σ) : Prop where
  underway : Underway badges progress.types t
  settles : t.findings.Settles cs progress.types
  narrated : ∃ full, Narrates badges (fun ix => (accepted cs).flatMap (classEvents ix)) [] full s t
    progress.sites

namespace Recounts

theorem start (underway : Underway badges [] s) : Recounts badges s [] {} s where
  underway := underway
  settles := .empty _
  narrated := ⟨[], .silent (.empty _) underway.sound.index.toCoherent (.refl badges s)⟩

/-- The findings change, and nobody is told. -/
theorem alter (recounts : Recounts badges s cs progress t) {f : Findings}
    (underway : Underway badges progress.types { t with findings := f })
    (advances : t.findings.Advances f) :
    Recounts badges s cs progress { t with findings := f } := by
  obtain ⟨full, narrates⟩ := recounts.narrated
  exact ⟨underway, recounts.settles.advances advances, full,
    narrates.alter advances underway.sound.index.toCoherent⟩

/-- A class is passed over: it is refused, or one of its key was accepted before. -/
theorem pass (recounts : Recounts badges s cs progress t) {c : ClassFacts}
    (settled : (∃ h ∈ progress.types, t.findings.index.IsType h c.key) ∨ t.findings.Bars c.key) :
    Recounts badges s (cs ++ [c]) progress t := by
  obtain ⟨full, narrates⟩ := recounts.narrated
  refine ⟨recounts.underway, recounts.settles.pass settled, full,
    narrates.congr fun {ix} foresees => ?_⟩
  rw [accepted_concat, List.flatMap_append]
  split
  · exact List.append_nil _
  · next fresh =>
      rcases settled with ⟨h, scanned, type⟩ | bars
      · have coherent := recounts.underway.sound.index.toCoherent
        exact absurd ((recounts.settles.mem_types_iff coherent type).mp scanned) fresh
      · have refused := Index.registered?_eq_none foresees.coherent (foresees.refused bars)
        rw [List.flatMap_singleton, classEvents, refused, List.append_nil]

/-- A class tells its part of the story: nothing if it is refused or was met before, and otherwise
all that its members give rise to. -/
theorem scanClass (recounts : Recounts badges s cs progress t) (path : String) (c : ClassFacts) :
    (scanClass path progress c).Runs t
      (fun progress u => Recounts badges s (cs ++ [c]) progress u ∧
        t.findings.Advances u.findings)
      (Stopped badges) := by
  have sound := recounts.underway.sound
  have tacit := t.findings.resolveType_tacit c.key
  have advances := Findings.Advances.resolveType sound c.key
  unfold BytecodeScan.scanClass
  refine .edit_bind ?_
  rcases resolved : t.findings.resolveType c.key with ⟨e | type, f⟩
  · rw [resolved] at tacit advances
    have recorded (i : Issue) : f.Advances (f.record i) := .of_index rfl rfl
    have bars := Findings.bars_of_resolveType sound resolved
    have advances' := advances.trans (recorded (.ofIndexError .bytecode c.key e))
    refine .alter_bind (.pure ⟨Recounts.pass ?_ (.inr ?_), advances'⟩)
    · exact recounts.alter (recounts.underway.record tacit.toKeeps _) advances'
    · exact (recorded _).barred bars
  · rw [resolved] at tacit advances
    have isType := Findings.isType_of_resolveType sound resolved
    dsimp only
    split
    · next known =>
        have recorded : f.Advances (f.record (.duplicateClass path c.key)) := .of_index rfl rfl
        have advances' := advances.trans recorded
        refine .alter_bind (.pure ⟨Recounts.pass ?_ (.inl ⟨type, known, isType⟩), advances'⟩)
        exact recounts.alter (recounts.underway.record tacit.toKeeps _) advances'
    · next new =>
        obtain ⟨full, narrates⟩ := recounts.narrated
        refine (scanMembers_narrates recounts.underway resolved new narrates.sites).bind ?_
        rintro sites u ⟨opened, full', narrates'⟩
        have advances' := narrates'.proceeds.advances
        have settles := (recounts.settles.advances advances').accept opened.isType
        refine .pure ⟨⟨opened.toUnderway, settles, _, (narrates.trans narrates').congr
          fun _ => ?_⟩, advances'⟩
        -- had its key been read before, its type would have been met
        have fresh : c.key ∉ cs.map ClassFacts.key := fun listed => new <|
          ((recounts.settles.advances advances).mem_types_iff
            (tacit.evolves.sound sound).index.toCoherent isType).mpr listed
        rw [accepted_concat, if_neg fresh, List.flatMap_append, List.flatMap_singleton]

end Recounts

end BytecodeScan

/-! ## Items of the bytecode scan -/

theorem filterMap_singleton {α β : Type} (f : α → Option β) (a : α) :
    [a].filterMap f = (f a).toList := by
  rw [List.filterMap_cons, List.filterMap_nil]
  cases f a <;> rfl

namespace Item

/-- The class of an item. -/
def class? : Item → Option ClassFacts
  | .decoded _ c => some c
  | _ => none

/-- Whether an item can stand between the first class and the end of the bytecode scan. -/
def isOfArtifact : Item → Bool
  | .say .. | .failure _ | .decoded .. => true
  | _ => false

end Item

namespace Artifact

/-- The messages at the beginning of an artifact are of the artifact, and bring no class. -/
theorem isOfArtifact_of_mem_opening {a : Artifact} {item : Item} (listed : item ∈ a.opening) :
    item.isOfArtifact = true ∧ item.class? = none := by
  unfold opening at listed
  split at listed
  · rw [List.mem_singleton.mp listed]
    exact ⟨rfl, rfl⟩
  · cases listed

theorem isOfArtifact_of_mem {a : Artifact} {item : Item} (listed : item ∈ a.agenda) :
    item.isOfArtifact = true := by
  simp only [agenda, List.mem_append, List.mem_map, Option.mem_toList,
    Option.map_eq_some_iff] at listed
  rcases listed with first | ⟨c, -, rfl⟩ | ⟨i, -, rfl⟩
  · exact (isOfArtifact_of_mem_opening first).1
  · rfl
  · rfl

theorem filterMap_class?_opening (a : Artifact) : a.opening.filterMap Item.class? = [] :=
  List.filterMap_eq_nil_iff.mpr fun _ listed => (isOfArtifact_of_mem_opening listed).2

theorem filterMap_class?_decoded (path : String) (cs : List ClassFacts) :
    (cs.map (Item.decoded path)).filterMap Item.class? = cs := by
  rw [List.filterMap_map]
  exact List.filterMap_some

/-- The classes that an artifact brings are the decoded ones, in their order, whether or not it
fails in the end. -/
theorem filterMap_class?_agenda (a : Artifact) : a.agenda.filterMap Item.class? = a.classes := by
  have failure : (a.failure?.map Item.failure).toList.filterMap Item.class? = [] := by
    cases a.failure? <;> rfl
  rw [agenda, List.filterMap_append, List.filterMap_append, filterMap_class?_opening,
    filterMap_class?_decoded, failure, List.nil_append, List.append_nil]

theorem isOfArtifact_of_mem_agendas {artifacts : List Artifact} {item : Item}
    (listed : item ∈ artifacts.flatMap Artifact.agenda) : item.isOfArtifact = true := by
  obtain ⟨a, -, listed⟩ := List.mem_flatMap.mp listed
  exact isOfArtifact_of_mem listed

theorem filterMap_class?_agendas (artifacts : List Artifact) :
    (artifacts.flatMap Artifact.agenda).filterMap Item.class? =
      artifacts.flatMap Artifact.classes := by
  rw [List.filterMap_flatMap]
  simp only [filterMap_class?_agenda]

end Artifact

namespace BytecodeScan

/-- The last items of the scan. -/
def ending : List Item := [.scanEnd .bytecode, .say .info closing]

variable {badges : List Badge} {cs : List ClassFacts} {progress : Progress} {s t : Session σ}

namespace Recounts

/-- An item of an artifact tells its part of the story.  Only a class has something to tell. -/
theorem carryOut (recounts : Recounts badges s cs progress t) {item : Item}
    (ofArtifact : item.isOfArtifact = true) :
    (item.carryOut progress).Runs t
      (fun progress u => Recounts badges s (cs ++ item.class?.toList) progress u ∧
        t.findings.Advances u.findings)
      (Stopped badges) := by
  cases item with
  | say level message =>
      have said : t.findings.Advances (t.findings.say level (message t.findings)) :=
        .of_index rfl rfl
      rw [show cs ++ (Item.say level message).class?.toList = cs from List.append_nil cs]
      exact .alter_bind (.pure
        ⟨recounts.alter (recounts.underway.keeps (.say _ _ _)) said, said⟩)
  | failure i =>
      have recorded : t.findings.Advances (t.findings.record i) := .of_index rfl rfl
      rw [show cs ++ (Item.failure i).class?.toList = cs from List.append_nil cs]
      exact .alter_bind (.pure
        ⟨recounts.alter (recounts.underway.record (.refl _) i) recorded, recorded⟩)
  | decoded path c => exact recounts.scanClass path c
  | _ => cases ofArtifact

/-- Item by item, the story of an agenda is told. -/
theorem carryOut_all (recounts : Recounts badges s cs progress t) {items : List Item}
    (ofArtifact : ∀ item ∈ items, item.isOfArtifact = true) :
    (items.foldlM Item.carryOut progress).Runs t
      (fun progress u => Recounts badges s (cs ++ items.filterMap Item.class?) progress u ∧
        t.findings.Advances u.findings)
      (Stopped badges) := by
  refine .foldlM_mem (fun done progress u =>
    Recounts badges s (cs ++ done.filterMap Item.class?) progress u ∧
      t.findings.Advances u.findings) items ?_ ?_
  · rw [List.filterMap_nil, List.append_nil]
    exact ⟨recounts, .refl _⟩
  · rintro done item progress u listed ⟨recounts, advances⟩
    refine (recounts.carryOut (ofArtifact item listed)).mono ?_ fun _ _ stopped => stopped
    rintro progress v ⟨recounts', advances'⟩
    rw [List.filterMap_append, filterMap_singleton, ← List.append_assoc]
    exact ⟨recounts', advances.trans advances'⟩

/-- The end of the scan. -/
theorem close (recounts : Recounts badges s cs progress t) :
    (ending.foldlM Item.carryOut progress).Runs t
      (fun progress u => Underway badges progress.types u ∧
        Proceeds badges [.endScan .bytecode] t u)
      (Stopped badges) := by
  simp only [ending, List.foldlM_cons, List.foldlM_nil, Item.carryOut, bind_assoc, pure_bind]
  refine (recounts.underway.tell (by rintro visit ⟨⟩)).bind ?_
  rintro - u ⟨heard, proceeds⟩
  have said : u.findings.Advances (u.findings.say .info (closing u.findings)) := .of_index rfl rfl
  have closed := recounts.underway.heard heard
  exact .alter_bind (.pure ⟨closed.keeps (.say _ _ _), proceeds.alter said⟩)

end Recounts

/-- The bytecode scan tells its story.  Which classes and methods are part of it is read off a later
index, which already shows what the scan was going to accept. -/
theorem run_recounts (underway : Underway badges [] s) (artifacts : List Artifact) :
    (run artifacts).Runs s
      (fun _ t => ∃ types events, Underway badges types t ∧ Proceeds badges events s t ∧
        ∀ {ix : Index}, t.findings.Foresees ix → Analysis.bytecodeStory ix artifacts = events)
      (Stopped badges) := by
  have ofArtifact : ∀ item ∈ opening artifacts :: artifacts.flatMap Artifact.agenda,
      item.isOfArtifact = true :=
    List.forall_mem_cons.mpr ⟨rfl, fun _ => Artifact.isOfArtifact_of_mem_agendas⟩
  have classes : (opening artifacts :: artifacts.flatMap Artifact.agenda).filterMap Item.class? =
      artifacts.flatMap Artifact.classes :=
    (List.filterMap_cons_none rfl).trans (Artifact.filterMap_class?_agendas artifacts)
  have split : agenda artifacts =
      (opening artifacts :: artifacts.flatMap Artifact.agenda) ++ ending := rfl
  rw [run_eq, split, List.foldlM_append, bind_assoc]
  refine ((Recounts.start underway).carryOut_all ofArtifact).bind ?_
  rintro progress t ⟨recounts, -⟩
  rw [List.nil_append, classes] at recounts
  obtain ⟨full, narrates⟩ := recounts.narrated
  refine recounts.close.bind ?_
  rintro progress u ⟨closed, proceeds⟩
  refine .pure ⟨progress.types, _, closed, narrates.proceeds.trans proceeds, fun foresees => ?_⟩
  rw [Analysis.bytecodeStory, narrates.foreseen (foresees.advances proceeds.advances)]

end BytecodeScan

/-! ## Whole runs -/

namespace Analysis

/-- The end of a run attaches metrics only, so no key changes what it is known as. -/
theorem advances_of_closes {f f' : Findings} (sound : f.toModel.Sound) (closes : Closes f f') :
    f.Advances f' := by
  have added : f.toModel.Evolves (f.withModel f.toModel.addTypes).toModel :=
    .single .addTypes rfl ⟨rfl, rfl⟩
  have types : f.Advances (f.withModel f.toModel.addTypes) := .of_index rfl rfl
  exact types.trans (.of_remeasures (added.sound sound) closes.toRemeasures)

/-- A run that ends has told the story that belongs to its index.  The stories of both scans are
read off the index at the end, which neither scan had when it told them. -/
theorem scanning_tells (config : Config) (visitors : List (External σ × Subscription))
    (sources : List SourceFile) (artifacts : List Artifact) :
    (scanning sources artifacts).Runs (start config visitors)
      (fun _ t => ∃ events : List Event,
        t.told = events.flatMap (Badge.deliveries (start config visitors).roster.badges) ∧
        events.map Event.unowned = story t.findings.index sources artifacts)
      (Stopped (start config visitors).roster.badges) := by
  unfold scanning
  refine (SourceScan.run_reports (start_underway config visitors) sources).bind ?_
  rintro - s ⟨underway, events, told, foreseen⟩
  refine (BytecodeScan.run_recounts underway artifacts).bind ?_
  rintro - t ⟨types, events', underway', proceeds, foreseen'⟩
  refine .of_ends ((finish_runs underway').mono ?_)
  rintro - u finished
  have advances := advances_of_closes underway'.sound finished.closes
  have final := Findings.Foresees.now finished.sane.sound
  refine ⟨events ++ events', ?_, ?_⟩
  · rw [Session.told, finished.transcript, List.flatMap_append]
    exact proceeds.told.trans (congrArg (· ++ _) told)
  · rw [List.map_append, foreseen (proceeds.advances.trans advances).grows final.coherent,
      ← foreseen' (final.advances advances), story]
    refine congrArg _ ((List.map_congr_left fun e listed => ?_).trans (List.map_id _))
    exact Event.unowned_of_bytecode (phase_of_mem_bytecodeStory listed)

end Analysis

end CodeMetrics
