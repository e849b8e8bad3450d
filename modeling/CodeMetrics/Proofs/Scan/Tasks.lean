import CodeMetrics.Proofs.Graph.Queries
import CodeMetrics.Proofs.Scan.Anatomy
import CodeMetrics.Proofs.Scan.Story

/-!
# A run task by task

The agenda of a run goes down to whole classes, and a class has many facts.  A task is an item of
the agenda or a part of one: a fact of a class, or an event that visitors are told of.  A run takes
the first of its tasks, makes the change that this task begins with, and puts what is left of the
task before the others (`Task.step`).  The points between two steps are the points that the run
reaches (`Analysis.Reached`).

* At every point, what is still to come of the run is to carry out the tasks that are left
  (`Reached.runSession_eq`).  So these points are points of the run itself, and not of a machine
  that happens to have the same outcome.
* The parts of a task are of a lower rank than the task.  So a task is finished at some point, and
  in a run that is not stopped each task has its turn (`Reached.turn`).
-/

namespace CodeMetrics

open BytecodeScan (Progress)

variable {σ α β : Type}

/-! ## Tasks -/

/-- An item of the agenda, or a part of one.  The class of a fact is given with its type. -/
inductive Task where
  | item (i : Item)
  | superclass (c : ClassFacts) (type : Handle)
  | interface (c : ClassFacts) (type : Handle) (key : String)
  | field (c : ClassFacts) (type : Handle) (declared : Field)
  | method (c : ClassFacts) (type : Handle) (m : Method)
  | reference (c : ClassFacts) (type caller : Handle) (callerKey : String) (r : Reference)
  /-- The dependency that a reference stands for. -/
  | dependency (c : ClassFacts) (type : Handle) (r : Reference)
  | tell (e : Event)
  /-- The end of a class. -/
  | leave (c : ClassFacts) (type : Handle)

/-- The tasks of a class that is entered. -/
def ClassFacts.tasks (c : ClassFacts) (type : Handle) : List Task :=
  .superclass c type ::
    (c.interfaces.map (.interface c type) ++ c.fields.map (.field c type) ++
      .tell (.type (BytecodeScan.typeVisit c type)) ::
        (c.methods.map (.method c type) ++ [.leave c type]))

/-- The tasks of a method that is accepted. -/
def ClassFacts.methodTasks (c : ClassFacts) (type : Handle) (m : Method) (h : Handle) :
    List Task :=
  .tell (BytecodeScan.methodEvent c type m h) ::
    m.body.map (.reference c type h (c.methodKey m))

/-- The tasks of a reference that is the first at its site. -/
def ClassFacts.referenceTasks (c : ClassFacts) (type : Handle) (callerKey : String)
    (r : Reference) : List Task :=
  [.tell (BytecodeScan.referenceEvent c type callerKey r), .dependency c type r]

namespace Task

/-- Carries out a task to its end. -/
def carryOut (progress : Progress) : Task → Scanning σ Progress
  | item i => i.carryOut progress
  | superclass c type => do
    Scanning.alter (·.addSuperclass c type)
    return progress
  | interface c _ key => do
    Scanning.alter fun f => (f.depend c.key key .implementation).2
    return progress
  | field c _ declared => do
    Scanning.alter fun f =>
      (f.declareFact .bytecode (c.fieldKey declared) .field (some c.key)).2
    return progress
  | method c type m => do
    return { progress with sites := ← BytecodeScan.scanMethod c type progress.sites m }
  | reference c type caller callerKey r => do
    return { progress with
      sites := ← BytecodeScan.scanReference c type caller callerKey progress.sites r }
  | dependency c _ r => do
    Scanning.alter (·.addReference c r)
    return progress
  | tell e => do
    Scanning.dispatch e
    return progress
  | leave c type => do
    Scanning.dispatch (.leaveType (BytecodeScan.typeVisit c type))
    return { progress with types := type :: progress.types }

/-- Makes the change that a task begins with, and gives the tasks that are left of it. -/
def step (progress : Progress) : Task → Scanning σ (List Task × Progress)
  | item (.declaration d) => do
    match ← Scanning.edit (·.declareFact .source d.key d.kind d.parent) with
    | none => return ([], progress)
    | some h =>
      return ((SourceScan.event? (← Scanning.findings).index h d).toList.map tell, progress)
  | item (.decoded path c) => do
    match ← Scanning.edit (·.resolveType c.key) with
    | .error e =>
      Scanning.alter (·.record (.ofIndexError .bytecode c.key e))
      return ([], progress)
    | .ok type =>
      if type ∈ progress.types then
        Scanning.alter (·.record (.duplicateClass path c.key))
        return ([], progress)
      else
        Scanning.alter (·.entered type)
        return (c.tasks type, progress)
  | method c type m => do
    match ← Scanning.edit (·.declareFact .bytecode (c.methodKey m) .method (some c.key)) with
    | none => return ([], progress)
    | some h => return (c.methodTasks type m h, progress)
  | reference c type caller callerKey r =>
    if progress.sites.contains (caller, r.site) then
      return ([], progress)
    else
      return (c.referenceTasks type callerKey r,
        { progress with sites := (caller, r.site) :: progress.sites })
  | task => do return ([], ← task.carryOut progress)

/-! ## Steps make up tasks -/

theorem alter_alter (first second : Findings → Findings) :
    (do Scanning.alter first; Scanning.alter second : Scanning σ Unit) =
      Scanning.alter fun f => second (first f) :=
  rfl

/-- A loop of edits is one edit. -/
theorem foldlM_alter (op : Findings → α → Findings) (l : List α) (b : β) :
    (l.foldlM (fun b a => do Scanning.alter (op · a); return b) b : Scanning σ β) =
      (do Scanning.alter fun f => l.foldl op f; return b) := by
  induction l with
  | nil => rfl
  | cons a rest ih =>
      rw [List.foldlM_cons, bind_assoc]
      simp only [pure_bind, ih, List.foldl_cons]
      rw [← bind_assoc, alter_alter]

/-- A loop over the places of references, as a part of the progress. -/
theorem foldlM_sites (op : List (Handle × UInt32) → α → Scanning σ (List (Handle × UInt32)))
    (l : List α) (progress : Progress) :
    (l.foldlM (fun p a => do return { p with sites := ← op p.sites a }) progress :
        Scanning σ Progress) =
      (do return { progress with sites := ← l.foldlM op progress.sites }) := by
  induction l generalizing progress with
  | nil => simp only [List.foldlM_nil, pure_bind]
  | cons a rest ih => simp only [List.foldlM_cons, bind_assoc, pure_bind, ih]

/-- The facts of a class, one after the other. -/
theorem scanMembers_eq (c : ClassFacts) (type : Handle) (progress : Progress) :
    (do return ⟨← BytecodeScan.scanMembers c type progress.sites, type :: progress.types⟩ :
        Scanning σ Progress) =
      (do Scanning.alter (·.entered type); (c.tasks type).foldlM carryOut progress) := by
  have opening : (Scanning.alter (·.openClass c type) : Scanning σ Unit) = (do
      Scanning.alter (·.entered type)
      Scanning.alter (·.addSuperclass c type)
      Scanning.alter (·.addInterfaces c)
      Scanning.alter (·.addFields c)) := rfl
  unfold BytecodeScan.scanMembers ClassFacts.tasks
  rw [opening]
  simp only [List.foldlM_cons, List.foldlM_append, List.foldlM_map, List.foldlM_nil, carryOut,
    bind_assoc, pure_bind, foldlM_alter, foldlM_sites, bind_pure]
  rfl

/-- A task is its first change and what is left of it then.  Unfolding this again and again gives
the run as a list of single steps. -/
theorem carryOut_eq (task : Task) (progress : Progress) :
    (task.carryOut progress : Scanning σ Progress) =
      (do let (parts, progress) ← task.step progress; parts.foldlM carryOut progress) := by
  -- most tasks are done in one step
  have whole (single : (task.step progress : Scanning σ _) =
      (do return ([], ← task.carryOut progress))) :
      (task.carryOut progress : Scanning σ Progress) =
        (do let (parts, progress) ← task.step progress; parts.foldlM carryOut progress) := by
    rw [single]
    simp only [bind_assoc, pure_bind, List.foldlM_nil, bind_pure]
  cases task with
  | item i =>
      cases i with
      | declaration d =>
          simp only [carryOut, Item.carryOut, SourceScan.applyDeclaration, step, bind_assoc]
          refine congrArg _ (funext fun answer => ?_)
          cases answer with
          | none => rfl
          | some h =>
              simp only [bind_assoc, pure_bind]
              refine congrArg _ (funext fun f => ?_)
              cases SourceScan.event? f.index h d with
              | none => rfl
              | some e =>
                  simp only [Option.toList_some, List.map_cons, List.map_nil, List.foldlM_cons,
                    List.foldlM_nil, carryOut, bind_assoc, pure_bind]
      | decoded path c =>
          simp only [carryOut, Item.carryOut, BytecodeScan.scanClass, step, bind_assoc]
          refine congrArg _ (funext fun resolved => ?_)
          cases resolved with
          | error e => simp only [bind_assoc, pure_bind, List.foldlM_nil]
          | ok type =>
              dsimp only
              split
              · simp only [bind_assoc, pure_bind, List.foldlM_nil]
              · simp only [bind_assoc, pure_bind, scanMembers_eq]
      | say level message => exact whole rfl
      | fileEnd => exact whole rfl
      | failure i => exact whole rfl
      | scanEnd phase => exact whole rfl
  | method c type m =>
      simp only [carryOut, BytecodeScan.scanMethod, step, bind_assoc]
      refine congrArg _ (funext fun answer => ?_)
      cases answer with
      | none => rfl
      | some h =>
          simp only [ClassFacts.methodTasks, BytecodeScan.methodEvent, List.foldlM_cons,
            List.foldlM_map, carryOut, foldlM_sites, bind_assoc, pure_bind]
  | reference c type caller callerKey r =>
      simp only [carryOut, BytecodeScan.scanReference, step, List.contains_iff_mem]
      split
      · simp only [pure_bind, List.foldlM_nil]
      · simp only [ClassFacts.referenceTasks, BytecodeScan.referenceEvent, List.foldlM_cons,
          List.foldlM_nil, carryOut, bind_assoc, pure_bind]
  | superclass c type => exact whole rfl
  | interface c type key => exact whole rfl
  | field c type declared => exact whole rfl
  | dependency c type r => exact whole rfl
  | tell e => exact whole rfl
  | leave c type => exact whole rfl

/-! ## What a step does -/

/-- How deep the parts of a task go. -/
def rank : Task → Nat
  | item (.decoded ..) => 3
  | method .. => 2
  | item (.declaration _) => 1
  | reference .. => 1
  | _ => 0

/-- The class of a fact, with its type. -/
def class? : Task → Option (ClassFacts × Handle)
  | item _ | tell _ => none
  | superclass c type | interface c type _ | field c type _ | method c type _
  | reference c type .. | dependency c type _ | leave c type => some (c, type)

end Task

/-- The class has its type, which is a vertex. -/
structure Findings.Opens (f : Findings) (c : ClassFacts) (type : Handle) : Prop where
  isType : f.index.IsType type c.key
  vertex : f.graph.contains type = true

theorem Findings.Opens.evolves {f f' : Findings} {c : ClassFacts} {type : Handle}
    (opens : f.Opens c type) (sound : f.toModel.Sound) (evolves : f.toModel.Evolves f'.toModel) :
    f'.Opens c type where
  isType := opens.isType.grows (evolves.grows sound)
  vertex := (evolves.grown sound).contains sound.graph opens.vertex

theorem Findings.opens_entered {f : Findings} {c : ClassFacts} {type : Handle}
    (isType : f.index.IsType type c.key) : (f.entered type).Opens c type where
  isType := isType
  vertex := by
    show (f.graph.addVertex type).2.contains type = true
    rw [Graph.contains_addVertex, beq_self_eq_true, Bool.true_or]

theorem Findings.declareFact_evolves (f : Findings) (phase : Phase) (key : String) (kind : Kind)
    (parent : Option String) :
    f.toModel.Evolves (f.declareFact phase key kind parent).2.toModel := by
  have evolves := f.declare_evolves key kind parent
  unfold declareFact
  rcases declared : f.declare key kind parent with ⟨e | h, f'⟩
  · rw [declared] at evolves
    exact evolves.trans (.of_alike ⟨rfl, rfl⟩)
  · rw [declared] at evolves
    exact evolves

/-- Whatever visitors do, the model evolves.  All that their effects can change in it are measures.
-/
theorem Scanning.dispatch_evolves (e : Event) (s : Session σ) :
    (dispatch e).Runs s (fun _ t => s.findings.toModel.Evolves t.findings.toModel)
      fun _ _ => True := by
  unfold Runs
  rw [runOn_dispatch]
  refine Runs.forM (fun _ t => s.findings.toModel.Evolves t.findings.toModel) _ (.refl _) ?_
  intro _ slot t evolves
  cases found : t.roster[slot]? with
  | none => exact .of_ok (runOn_call_of_none found) evolves
  | some subscriber =>
      cases failure : (subscriber.visitor.react t.findings e).2.failure with
      | none =>
          exact .of_ok (runOn_call_of_quiet found failure)
            (evolves.trans (t.findings.effects_evolve _))
      | some reason => exact .of_error (runOn_call_of_failure found failure) trivial

namespace Task

/-- A class of which facts are left is open. -/
def Fits (f : Findings) (task : Task) : Prop :=
  ∀ c type, task.class? = some (c, type) → f.Opens c type

/-- A part of a task of the class, of a lower rank. -/
def IsPart (c : ClassFacts) (type : Handle) (rank : Nat) (part : Task) : Prop :=
  part.rank < rank ∧ (part.class? = none ∨ part.class? = some (c, type))

theorem isPart_of_mem_tasks {c : ClassFacts} {type : Handle} {part : Task}
    (among : part ∈ c.tasks type) : part.IsPart c type 3 := by
  simp only [ClassFacts.tasks, List.mem_cons, List.mem_append, List.mem_map, List.not_mem_nil,
    or_false] at among
  rcases among with rfl | (⟨key, -, rfl⟩ | ⟨declared, -, rfl⟩) | rfl | ⟨m, -, rfl⟩ | rfl <;>
    simp [IsPart, rank, class?]

theorem isPart_of_mem_methodTasks {c : ClassFacts} {type h : Handle} {m : Method} {part : Task}
    (among : part ∈ c.methodTasks type m h) : part.IsPart c type 2 := by
  simp only [ClassFacts.methodTasks, List.mem_cons, List.mem_map] at among
  rcases among with rfl | ⟨r, -, rfl⟩ <;> simp [IsPart, rank, class?]

theorem isPart_of_mem_referenceTasks {c : ClassFacts} {type : Handle} {key : String}
    {r : Reference} {part : Task} (among : part ∈ c.referenceTasks type key r) :
    part.IsPart c type 1 := by
  simp only [ClassFacts.referenceTasks, List.mem_cons, List.not_mem_nil, or_false] at among
  rcases among with rfl | rfl <;> simp [IsPart, rank, class?]

theorem IsPart.fits {f : Findings} {c : ClassFacts} {type : Handle} {rank : Nat} {part : Task}
    (isPart : part.IsPart c type rank) (opens : f.Opens c type) : part.Fits f := by
  intro c' type' same
  rcases isPart.2 with none | own
  · rw [none] at same
    cases same
  · rw [own] at same
    cases same
    exact opens

/-- After a step of a task the model has evolved, and what is left of the task fits the model. -/
structure Reduces (task : Task) (s : Session σ) (left : List Task × Progress) (t : Session σ) :
    Prop where
  evolves : s.findings.toModel.Evolves t.findings.toModel
  lower : ∀ part ∈ left.1, part.rank < task.rank
  fits : ∀ part ∈ left.1, part.Fits t.findings

variable {s : Session σ} {task : Task} {progress : Progress}

theorem Reduces.last {t : Session σ} (evolves : s.findings.toModel.Evolves t.findings.toModel) :
    task.Reduces s ([], progress) t :=
  ⟨evolves, List.forall_mem_nil _, List.forall_mem_nil _⟩

theorem Reduces.parts {t : Session σ} {parts : List Task} {c : ClassFacts} {type : Handle}
    (evolves : s.findings.toModel.Evolves t.findings.toModel) (opens : t.findings.Opens c type)
    (isPart : ∀ part ∈ parts, part.IsPart c type task.rank) :
    task.Reduces s (parts, progress) t :=
  ⟨evolves, fun part among => (isPart part among).1,
    fun part among => (isPart part among).fits opens⟩

/-- A task that is done in one step. -/
theorem reduces_of_single {x : Scanning σ Progress}
    (evolves : x.Runs s (fun _ t => s.findings.toModel.Evolves t.findings.toModel)
      fun _ _ => True) :
    (do return ([], ← x) : Scanning σ _).Runs s (task.Reduces s) fun _ _ => True :=
  evolves.bind fun _ _ evolves => .pure (.last evolves)

/-- A step that no visitor stops reduces its task.  What is left of it are tasks of a lower rank, so
that the steps come to an end. -/
theorem step_reduces (sound : s.findings.toModel.Sound) (fits : task.Fits s.findings)
    (progress : Progress) :
    (task.step progress).Runs s (task.Reduces s) fun _ _ => True := by
  have told (e : Event) (p : Progress) : (do Scanning.dispatch e; return p : Scanning σ _).Runs s
      (fun _ t => s.findings.toModel.Evolves t.findings.toModel) fun _ _ => True :=
    (Scanning.dispatch_evolves e s).bind fun _ _ evolves => .pure evolves
  cases task with
  | item i =>
      cases i with
      | declaration d =>
          have evolves := s.findings.declareFact_evolves .source d.key d.kind d.parent
          refine .edit_bind ?_
          split
          · exact .pure (.last evolves)
          · refine .findings_bind (.pure ⟨evolves, fun part among => ?_, fun part among => ?_⟩)
            · obtain ⟨e, -, rfl⟩ := List.mem_map.mp among
              exact Nat.one_pos
            · obtain ⟨e, -, rfl⟩ := List.mem_map.mp among
              intro c type none
              cases none
      | decoded path c =>
          have tacit := s.findings.resolveType_tacit c.key
          refine .edit_bind ?_
          split
          · exact .alter_bind (.pure (.last (tacit.evolves.trans (.of_alike ⟨rfl, rfl⟩))))
          · next type resolved =>
            split
            · exact .alter_bind (.pure (.last (tacit.evolves.trans (.of_alike ⟨rfl, rfl⟩))))
            · -- a new class: its parts are the tasks, each of them smaller than the class
              have isType := Findings.isType_of_resolveType sound (Prod.ext resolved rfl)
              have evolves := tacit.evolves.trans (Findings.entered_evolves isType)
              exact .alter_bind (.pure (.parts evolves (Findings.opens_entered isType)
                fun _ => isPart_of_mem_tasks))
      | say level message => exact reduces_of_single (.alter_bind (.pure (.of_alike ⟨rfl, rfl⟩)))
      | fileEnd => exact reduces_of_single (.alter_bind (.pure (.of_alike ⟨rfl, rfl⟩)))
      | failure i => exact reduces_of_single (.alter_bind (.pure (.of_alike ⟨rfl, rfl⟩)))
      | scanEnd phase => exact reduces_of_single (told _ _)
  | method c type m =>
      have evolves := s.findings.declareFact_evolves .bytecode (c.methodKey m) .method (some c.key)
      have opens := (fits c type rfl).evolves sound evolves
      refine .edit_bind ?_
      split
      · exact .pure (.last evolves)
      · exact .pure (.parts evolves opens fun _ => isPart_of_mem_methodTasks)
  | reference c type caller callerKey r =>
      rw [step]
      split
      · exact .pure (.last (.refl _))
      · exact .pure (.parts (.refl _) (fits c type rfl) fun _ => isPart_of_mem_referenceTasks)
  | superclass c type =>
      have enriches := Findings.addSuperclass_enriches sound c type
      exact reduces_of_single (.alter_bind (.pure enriches.evolves))
  | interface c type key =>
      exact reduces_of_single (.alter_bind (.pure (s.findings.depend_evolves _ _ _)))
  | field c type declared =>
      exact reduces_of_single (.alter_bind (.pure (s.findings.declareFact_evolves _ _ _ _)))
  | dependency c type r =>
      exact reduces_of_single (.alter_bind (.pure (Findings.addReference_keeps sound c r).evolves))
  | tell e => exact reduces_of_single (told _ _)
  | leave c type => exact reduces_of_single (told _ _)

end Task

/-! ## Points of a run -/

namespace Analysis

variable (config : Config) (visitors : List (External σ × Subscription))
  (sources : List SourceFile) (artifacts : List Artifact)

/-- A run comes to a point where these tasks are left. -/
inductive Reached : List Task → Progress → Session σ → Prop where
  | start : Reached ((agenda sources artifacts).map .item) {} (start config visitors)
  | step {task : Task} {rest parts : List Task} {progress progress' : Progress} {s t : Session σ}
      (reached : Reached (task :: rest) progress s)
      (stepped : (task.step progress).runOn s = (.ok (parts, progress'), t)) :
      Reached (parts ++ rest) progress' t

/-- The point that a run reaches after some steps.  It stays where a visitor stops it. -/
def pointAfter : Nat → List Task × Progress × Session σ
  | 0 => ((agenda sources artifacts).map .item, {}, start config visitors)
  | n + 1 =>
    match pointAfter n with
    | ([], progress, s) => ([], progress, s)
    | (task :: rest, progress, s) =>
      match (task.step progress).runOn s with
      | (.ok (parts, progress'), t) => (parts ++ rest, progress', t)
      | (.error _, _) => (task :: rest, progress, s)

variable {config visitors sources artifacts}

namespace Reached

variable {task : Task} {todo rest parts : List Task} {progress progress' : Progress}
  {s t : Session σ}

/-- The points of a run can be counted: each of them is come to after some number of steps. -/
theorem iff_pointAfter : Reached config visitors sources artifacts todo progress s ↔
    ∃ n, pointAfter config visitors sources artifacts n = (todo, progress, s) := by
  constructor
  · intro reached
    induction reached with
    | start => exact ⟨0, rfl⟩
    | step _ stepped ih =>
        obtain ⟨n, point⟩ := ih
        exact ⟨n + 1, by rw [pointAfter, point]; simp only [stepped]⟩
  · rintro ⟨n, point⟩
    induction n generalizing todo progress s with
    | zero =>
        cases point
        exact .start
    | succ n ih =>
        rw [pointAfter] at point
        split at point
        · next before =>
            cases point
            exact ih before
        · next before =>
            split at point
            · next stepped =>
                cases point
                exact .step (ih before) stepped
            · cases point
              exact ih before

/-- The run goes on with the tasks that are left. -/
theorem runSession_eq (reached : Reached config visitors sources artifacts todo progress s) :
    runSession config visitors sources artifacts =
      (do let _ ← todo.foldlM Task.carryOut progress; finish : Scanning σ Unit).runOn s := by
  induction reached with
  | start =>
      rw [runSession, scanning_eq, List.foldlM_map]
      rfl
  | @step task rest parts progress progress' s t _ stepped ih =>
      rw [ih, List.foldlM_cons, Task.carryOut_eq, bind_assoc, bind_assoc,
        Scanning.runOn_bind_of_ok stepped, List.foldlM_append, bind_assoc]

/-- The model is sound, and the classes of the facts that are left are open.  This is the invariant
of the points of a run. -/
theorem fits (reached : Reached config visitors sources artifacts todo progress s) :
    s.findings.toModel.Sound ∧ ∀ task ∈ todo, task.Fits s.findings := by
  induction reached with
  | start =>
      refine ⟨.empty, fun task among => ?_⟩
      obtain ⟨i, -, rfl⟩ := List.mem_map.mp among
      intro c type none
      cases none
  | @step task rest parts progress progress' s t _ stepped ih =>
      obtain ⟨sound, all⟩ := ih
      obtain ⟨first, others⟩ := List.forall_mem_cons.mp all
      have reduces := (Task.step_reduces sound first progress).ok stepped
      refine ⟨reduces.evolves.sound sound, fun part among => ?_⟩
      rcases List.mem_append.mp among with new | old
      · exact reduces.fits part new
      · exact fun c type facts => (others part old c type facts).evolves sound reduces.evolves

/-- A list of tasks is finished if each of them is. -/
theorem finish_all
    (each : ∀ part ∈ parts, ∀ {rest : List Task} {progress progress' : Progress}
      {s t : Session σ}, Reached config visitors sources artifacts (part :: rest) progress s →
        (part.carryOut progress).runOn s = (.ok progress', t) →
        Reached config visitors sources artifacts rest progress' t)
    (reached : Reached config visitors sources artifacts (parts ++ rest) progress s)
    (ended : (parts.foldlM Task.carryOut progress).runOn s = (.ok progress', t)) :
    Reached config visitors sources artifacts rest progress' t := by
  induction parts generalizing progress s with
  | nil =>
      cases ended
      exact reached
  | cons part parts ih =>
      obtain ⟨first, others⟩ := List.forall_mem_cons.mp each
      rw [List.foldlM_cons] at ended
      obtain ⟨progress₁, s₁, ended₁, same⟩ := Scanning.exists_of_bind_ok (congrArg Prod.fst ended)
      rw [same] at ended
      exact ih others (first reached ended₁) ended

/-- Where a task is finished, the others are left. -/
theorem finish_task (reached : Reached config visitors sources artifacts (task :: rest) progress s)
    (ended : (task.carryOut progress).runOn s = (.ok progress', t)) :
    Reached config visitors sources artifacts rest progress' t := by
  -- the induction is on the rank, for all lists of tasks that may follow
  induction rank : task.rank using Nat.strong_induction_on
    generalizing task rest progress progress' s t with
  | _ n ih =>
      rw [Task.carryOut_eq] at ended
      obtain ⟨⟨parts, progress₁⟩, s₁, stepped, same⟩ :=
        Scanning.exists_of_bind_ok (congrArg Prod.fst ended)
      rw [same] at ended
      obtain ⟨sound, fits⟩ := reached.fits
      have reduces := (Task.step_reduces sound (fits task List.mem_cons_self) progress).ok stepped
      refine finish_all (fun part among {_ _ _ _ _} reached ended => ?_)
        (.step reached stepped) ended
      exact ih part.rank (rank ▸ reduces.lower part among) reached ended rfl

/-- In a run that is not stopped, every task has its turn.  The tasks before it are finished one
after the other. -/
theorem turn (reached : Reached config visitors sources artifacts todo progress s)
    (ended : (runSession config visitors sources artifacts).1 = .ok ()) (among : task ∈ todo) :
    ∃ rest progress' t, Reached config visitors sources artifacts (task :: rest) progress' t := by
  rw [reached.runSession_eq] at ended
  induction todo generalizing progress s with
  | nil => cases among
  | cons first todo ih =>
      rcases List.mem_cons.mp among with rfl | later
      · exact ⟨todo, progress, s, reached⟩
      · rw [List.foldlM_cons, bind_assoc] at ended
        obtain ⟨progress₁, s₁, ended₁, same⟩ := Scanning.exists_of_bind_ok ended
        rw [same] at ended
        exact ih (reached.finish_task ended₁) ended later

end Reached

end Analysis

end CodeMetrics
