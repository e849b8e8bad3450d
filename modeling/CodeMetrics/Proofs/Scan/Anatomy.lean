import CodeMetrics.Proofs.Scan.Induction

/-!
# What a run is made of

Whoever compares two runs needs to know more about them than what each of them keeps.  There are two
views of a run for this.

* Its agenda is the list of its items, from the first declaration to the end of the bytecode scan.
  The inputs fix it, whatever comes of the items.  A run carries out its agenda item by item, so that
  changing the inputs is changing a list.
* Each item is made of edits of the findings and of dispatched events, and `Findings.Edit` lists the
  edits.  What two runs keep is shown for the edits and for a dispatch, and never again for the scans
  themselves.
-/

namespace CodeMetrics

open BytecodeScan (Progress)

variable {σ α β : Type}

/-- Whether an issue is about an input that could not be read to its end. -/
def Issue.isFailure (i : Issue) : Bool := i.isParseFailure || i.isDecodeFailure

/-! ## The agenda -/

/-- An item of the agenda of a run. -/
inductive Item where
  | say (level : Level) (message : Findings → String)
  | declaration (d : Declaration)
  /-- The end of a file that was parsed. -/
  | fileEnd
  /-- An input could not be read to its end. -/
  | failure (i : Issue)
  /-- A class, decoded from the artifact at `path`. -/
  | decoded (path : String) (c : ClassFacts)
  | scanEnd (phase : Phase)

/-- Carries out an item. -/
def Item.carryOut (progress : Progress) : Item → Scanning σ Progress
  | .say level message => do
    Scanning.alter fun f => f.say level (message f)
    return progress
  | .declaration d => do
    SourceScan.applyDeclaration d
    return progress
  | .fileEnd => do
    Scanning.alter SourceScan.countFile
    return progress
  | .failure i => do
    Scanning.alter (·.record i)
    return progress
  | .decoded path c => BytecodeScan.scanClass path progress c
  | .scanEnd phase => do
    Scanning.dispatch (.endScan phase)
    return progress

/-- The issue of a file that cannot be parsed. -/
def SourceFile.failure? (file : SourceFile) : Option Issue :=
  match file.result with
  | .error e => some (.parseFailed file.path e.message)
  | .ok _ => none

/-- The items of a file. -/
def SourceFile.agenda (file : SourceFile) : List Item :=
  match file.result with
  | .error e => [.failure (.parseFailed file.path e.message)]
  | .ok declarations =>
    .say .debug (fun _ => s!"{file.path}: {declarations.length} facts") ::
      (declarations.map .declaration ++ [.fileEnd])

/-- The issue of an artifact that cannot be decoded to its end. -/
def Artifact.failure? (a : Artifact) : Option Issue :=
  a.error.map fun e => .decodeFailed a.path e.message a.classes.length

/-- The message about an artifact that is decoded to its end. -/
def Artifact.opening (a : Artifact) : List Item :=
  match a.error with
  | none => [.say .debug fun _ => s!"{a.path}: {a.classes.length} classes"]
  | some _ => []

/-- The items of an artifact. -/
def Artifact.agenda (a : Artifact) : List Item :=
  a.opening ++ (a.classes.map (.decoded a.path) ++ (a.failure?.map Item.failure).toList)

/-- The message at the start of the source scan. -/
def SourceScan.opening (files : List SourceFile) : Item :=
  .say .info fun _ => s!"Source scan: {files.length} files"

/-- The items of the source scan. -/
def SourceScan.agenda (files : List SourceFile) : List Item :=
  opening files :: (files.flatMap SourceFile.agenda ++ [.scanEnd .source, .say .info closing])

/-- The message at the start of the bytecode scan. -/
def BytecodeScan.opening (artifacts : List Artifact) : Item :=
  .say .info fun _ => s!"Bytecode scan: {artifacts.length} artifacts"

/-- The items of the bytecode scan. -/
def BytecodeScan.agenda (artifacts : List Artifact) : List Item :=
  opening artifacts ::
    (artifacts.flatMap Artifact.agenda ++ [.scanEnd .bytecode, .say .info closing])

/-- Tells visitors of an event, if there is one. -/
def SourceScan.tell : Option Event → Scanning σ Unit
  | none => pure ()
  | some e => Scanning.dispatch e

/-- Tells visitors of a declaration that was registered. -/
def SourceScan.announce (d : Declaration) : Option Handle → Scanning σ Unit
  | none => pure ()
  | some h => do tell (← Scanning.edit fun f => (event? f.index h d, f))

/-- Applying a declaration is one edit of the findings, and then an announcement of what it has
made. -/
theorem SourceScan.applyDeclaration_eq (d : Declaration) :
    (applyDeclaration d : Scanning σ Unit) =
      (Scanning.edit (·.declareFact .source d.key d.kind d.parent) >>= announce d) := by
  unfold applyDeclaration
  refine congrArg _ (funext fun h => ?_)
  cases h <;> rfl

/-- The declarations of a file are items of the agenda, carried out in order. -/
theorem SourceScan.forM_applyDeclaration (declarations : List Declaration) (progress : Progress) :
    (declarations.forM applyDeclaration >>= fun _ => pure progress : Scanning σ Progress) =
      (declarations.map Item.declaration).foldlM Item.carryOut progress := by
  induction declarations with
  | nil => rfl
  | cons d rest ih =>
      show ((applyDeclaration d >>= fun _ => rest.forM applyDeclaration) >>= fun _ => _) = _
      simp only [List.map_cons, List.foldlM_cons, Item.carryOut, bind_assoc, pure_bind, ih]

/-- Scanning a file is carrying out its part of the agenda. -/
theorem SourceScan.scanFile_eq (file : SourceFile) (progress : Progress) :
    (scanFile file >>= fun _ => pure progress : Scanning σ Progress) =
      file.agenda.foldlM Item.carryOut progress := by
  unfold scanFile SourceFile.agenda
  cases file.result with
  | error e => simp only [List.foldlM_cons, List.foldlM_nil, Item.carryOut, bind_pure]
  | ok declarations =>
      simp only [List.foldlM_cons, List.foldlM_append, ← forM_applyDeclaration, List.foldlM_nil,
        Item.carryOut, bind_assoc, pure_bind]

/-- The source scan is carrying out its agenda.  Its files leave no progress behind, so any progress
is handed through. -/
theorem SourceScan.run_eq (files : List SourceFile) (progress : Progress) :
    (run files >>= fun _ => pure progress : Scanning σ Progress) =
      (agenda files).foldlM Item.carryOut progress := by
  have loop (files : List SourceFile) :
      (files.forM scanFile >>= fun _ => pure progress : Scanning σ Progress) =
        (files.flatMap SourceFile.agenda).foldlM Item.carryOut progress := by
    induction files with
    | nil => rfl
    | cons file rest ih =>
        show ((scanFile file >>= fun _ => rest.forM scanFile) >>= fun _ => _) = _
        simp only [List.flatMap_cons, List.foldlM_append, ← scanFile_eq, bind_assoc, pure_bind, ih]
  simp only [run, agenda, opening, List.foldlM_cons, List.foldlM_append, ← loop, List.foldlM_nil,
    Item.carryOut, bind_assoc, pure_bind]

/-- Scanning an artifact is carrying out its part of the agenda, also if it could not be decoded to
its end. -/
theorem BytecodeScan.scanArtifact_eq (progress : Progress) (a : Artifact) :
    (scanArtifact progress a : Scanning σ Progress) =
      a.agenda.foldlM Item.carryOut progress := by
  unfold scanArtifact Artifact.agenda Artifact.opening Artifact.failure?
  cases a.error with
  | none =>
      simp only [Option.map_none, Option.toList_none, List.append_nil, List.singleton_append,
        List.foldlM_cons, Item.carryOut, bind_assoc, pure_bind, List.foldlM_map]
  | some e =>
      simp only [Option.map_some, Option.toList_some, List.nil_append, List.foldlM_append,
        List.foldlM_cons, List.foldlM_nil, Item.carryOut, bind_assoc, pure_bind, List.foldlM_map]

/-- The bytecode scan is carrying out its agenda, from no progress on. -/
theorem BytecodeScan.run_eq (artifacts : List Artifact) :
    (run artifacts : Scanning σ Unit) =
      ((agenda artifacts).foldlM Item.carryOut {} >>= fun _ => pure ()) := by
  have loop (artifacts : List Artifact) (progress : Progress) :
      (artifacts.foldlM scanArtifact progress : Scanning σ Progress) =
        (artifacts.flatMap Artifact.agenda).foldlM Item.carryOut progress := by
    induction artifacts generalizing progress with
    | nil => rfl
    | cons a rest ih =>
        rw [List.foldlM_cons, List.flatMap_cons, List.foldlM_append, ← scanArtifact_eq]
        simp only [ih]
  simp only [run, agenda, opening, List.foldlM_cons, List.foldlM_append, loop, List.foldlM_nil,
    Item.carryOut, bind_assoc, pure_bind, bind_pure_unit]

namespace Analysis

/-- The items of a run. -/
def agenda (sources : List SourceFile) (artifacts : List Artifact) : List Item :=
  SourceScan.agenda sources ++ BytecodeScan.agenda artifacts

/-- A run carries out its agenda and finishes. -/
theorem scanning_eq (sources : List SourceFile) (artifacts : List Artifact) :
    (scanning sources artifacts : Scanning σ Unit) =
      ((agenda sources artifacts).foldlM Item.carryOut {} >>= fun _ => finish) := by
  unfold scanning agenda
  rw [List.foldlM_append, ← SourceScan.run_eq, BytecodeScan.run_eq]
  simp only [bind_assoc, pure_bind]

/-- The last edit of a run; an error leaves the findings as they are. -/
def conclude (f : Findings) : Option IndexError × Findings :=
  match measure f with
  | .error e => (some e, f)
  | .ok f => (none, f.say .info (closing f))

/-- Stops the run at an error of its last edit. -/
def stopAt : Option IndexError → Scanning σ Unit
  | some e => throw (.index e)
  | none => pure ()

/-- The end of a run is one edit of the findings, and then a stop if it gave an error. -/
theorem finish_eq : (finish : Scanning σ Unit) = (Scanning.edit conclude >>= stopAt) := by
  funext s
  unfold finish conclude
  have first : (Scanning.findings : Scanning σ Findings).runOn s = (.ok s.findings, s) := rfl
  refine (Scanning.runOn_bind_of_ok first).trans ?_
  refine Eq.trans ?_ (Scanning.runOn_bind_of_ok (Scanning.runOn_edit _)).symm
  cases measure s.findings <;> rfl

end Analysis

/-! ## Edits and events -/

/-- The edits of the findings that runs make; `issues` are those that may be recorded outright. -/
inductive Findings.Edit (issues : Issue → Prop) : (α : Type) → (Findings → α × Findings) → Prop where
  | say (level : Level) (message : Findings → String) :
      Edit issues Unit fun f => ((), f.say level (message f))
  | record {i : Issue} (allowed : issues i) : Edit issues Unit fun f => ((), f.record i)
  | countFile : Edit issues Unit fun f => ((), SourceScan.countFile f)
  | declareFact (phase : Phase) (key : String) (kind : Kind) (parent : Option String) :
      Edit issues (Option Handle) fun f => f.declareFact phase key kind parent
  /-- Looks up what visitors are told. -/
  | event? (h : Handle) (d : Declaration) :
      Edit issues (Option Event) fun f => (SourceScan.event? f.index h d, f)
  | resolveType (key : String) :
      Edit issues (Except IndexError Handle) fun f => f.resolveType key
  | openClass (c : ClassFacts) (type : Handle) :
      Edit issues Unit fun f => ((), f.openClass c type)
  | addReference (c : ClassFacts) (r : Reference) :
      Edit issues Unit fun f => ((), f.addReference c r)
  | conclude : Edit issues (Option IndexError) Analysis.conclude

namespace Scanning

open Findings

/-- A computation that is put together from edits, dispatched events and errors. -/
inductive Made (issues : Issue → Prop) : {α : Type} → Scanning σ α → Prop where
  | pure {α : Type} (a : α) : Made issues (pure a)
  | edit {α : Type} {change : Findings → α × Findings} (made : Edit issues α change) :
      Made issues (edit change)
  | dispatch (e : Event) : Made issues (dispatch e)
  | throw {α : Type} (e : RunError) : Made issues (throw e : Scanning σ α)
  | bind {α β : Type} {x : Scanning σ α} {k : α → Scanning σ β} (first : Made issues x)
      (rest : ∀ a, Made issues (k a)) : Made issues (x >>= k)

namespace Made

variable {issues : Issue → Prop}

theorem alter {change : Findings → Findings} (made : Edit issues Unit fun f => ((), change f)) :
    Made issues (Scanning.alter change : Scanning σ Unit) :=
  .edit made

/-- A loop is put together from its rounds. -/
theorem foldlM {step : β → α → Scanning σ β} {l : List α}
    (round : ∀ a ∈ l, ∀ b, Made issues (step b a)) (b : β) : Made issues (l.foldlM step b) := by
  induction l generalizing b with
  | nil => exact .pure b
  | cons a rest ih =>
      rw [List.foldlM_cons]
      exact .bind (round a (List.mem_cons_self ..) b)
        (ih fun a listed => round a (List.mem_cons_of_mem _ listed))

/-- Applying a declaration is made of two edits and one event at most. -/
theorem applyDeclaration (d : Declaration) :
    Made issues (SourceScan.applyDeclaration d : Scanning σ Unit) := by
  rw [SourceScan.applyDeclaration_eq]
  refine .bind (.edit (.declareFact ..)) fun h => ?_
  cases h with
  | none => exact .pure ()
  | some h =>
      refine .bind (.edit (.event? h d)) fun e => ?_
      cases e with
      | none => exact .pure ()
      | some e => exact .dispatch e

/-- A reference is made of an event and an edit, in this order, or of nothing if its place was
taken. -/
theorem scanReference (c : ClassFacts) (type method : Handle) (methodKey : String)
    (sites : List (Handle × UInt32)) (r : Reference) :
    Made issues (BytecodeScan.scanReference c type method methodKey sites r : Scanning σ _) := by
  unfold BytecodeScan.scanReference
  split
  · exact .pure _
  · exact .bind (.dispatch _) fun _ => .bind (.alter (.addReference c r)) fun _ => .pure _

/-- A method is made of an edit, an event and the references of its body. -/
theorem scanMethod (c : ClassFacts) (type : Handle) (sites : List (Handle × UInt32)) (m : Method) :
    Made issues (BytecodeScan.scanMethod c type sites m : Scanning σ _) := by
  unfold BytecodeScan.scanMethod
  refine .bind (.edit (.declareFact ..)) fun h => ?_
  cases h with
  | none => exact .pure sites
  | some method =>
      refine .bind (.dispatch _) fun _ => ?_
      exact .foldlM (fun r _ sites => scanReference c type method _ sites r) sites

/-- A class that is entered is made of an edit, two events and what its methods are made of. -/
theorem scanMembers (c : ClassFacts) (type : Handle) (sites : List (Handle × UInt32)) :
    Made issues (BytecodeScan.scanMembers c type sites : Scanning σ _) := by
  have members : Made issues (c.methods.foldlM (BytecodeScan.scanMethod c type) sites :
      Scanning σ _) := .foldlM (fun m _ sites => scanMethod c type sites m) sites
  unfold BytecodeScan.scanMembers
  refine .bind (.alter (.openClass c type)) fun _ => .bind (.dispatch _) fun _ => ?_
  exact .bind members fun sites => .bind (.dispatch _) fun _ => .pure sites

/-- A class records nothing but what does not fit the model.  Failures of inputs are recorded
elsewhere. -/
theorem scanClass (ordinary : ∀ i, i.isFailure = false → issues i) (path : String)
    (progress : Progress) (c : ClassFacts) :
    Made issues (BytecodeScan.scanClass path progress c : Scanning σ _) := by
  unfold BytecodeScan.scanClass
  refine .bind (.edit (.resolveType c.key)) fun resolved => ?_
  cases resolved with
  | error e =>
      have refused : (Issue.ofIndexError .bytecode c.key e).isFailure = false := by cases e <;> rfl
      exact .bind (.alter (.record (ordinary _ refused))) fun _ => .pure progress
  | ok type =>
      dsimp only
      split
      · exact .bind (.alter (.record (ordinary _ rfl))) fun _ => .pure progress
      · exact .bind (scanMembers c type progress.sites) fun _ => .pure _

/-- Every item of the agenda is made of edits and events.  The failures that it records are those
that the item stands for. -/
theorem carryOut (ordinary : ∀ i, i.isFailure = false → issues i) {item : Item}
    (allowed : ∀ i, item = .failure i → issues i) (progress : Progress) :
    Made issues (item.carryOut progress : Scanning σ _) := by
  cases item with
  | say level message => exact .bind (.alter (.say level message)) fun _ => .pure _
  | declaration d => exact .bind (applyDeclaration d) fun _ => .pure _
  | fileEnd => exact .bind (.alter .countFile) fun _ => .pure _
  | failure i => exact .bind (.alter (.record (allowed i rfl))) fun _ => .pure _
  | decoded path c => exact scanClass ordinary path progress c
  | scanEnd phase => exact .bind (.dispatch _) fun _ => .pure _

/-- The end of a run is made of one edit and perhaps a stop. -/
theorem finish : Made issues (Analysis.finish : Scanning σ Unit) := by
  rw [Analysis.finish_eq]
  refine .bind (.edit .conclude) fun e => ?_
  cases e with
  | none => exact .pure ()
  | some e => exact .throw _

/-- All items are made of edits and events. -/
theorem items (items : List Item) (progress : Progress) :
    Made (fun _ => True) (items.foldlM Item.carryOut progress : Scanning σ Progress) :=
  .foldlM (fun _ _ progress => carryOut (fun _ _ => trivial) (fun _ _ => trivial) progress) progress

/-- All of a run is made of edits and events. -/
theorem scanning (sources : List SourceFile) (artifacts : List Artifact) :
    Made (fun _ => True) (Analysis.scanning sources artifacts : Scanning σ Unit) := by
  rw [Analysis.scanning_eq]
  exact .bind (items _ _) fun _ => finish

end Made

end Scanning

end CodeMetrics
