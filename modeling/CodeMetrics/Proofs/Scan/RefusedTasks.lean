import CodeMetrics.Proofs.Graph.RefusedDependencies
import CodeMetrics.Proofs.Scan.Tasks

/-!
# Facts that are refused, in the course of a run

A fact is a declaration or a dependency.  A declaration that the index refuses is one step of the
run, which records one conflict.  Nothing else happens: no visitor is told, and nothing of a refused
method is left to do.  A dependency that the graph refuses is one step, which records one rejection.

Here a refused dependency leaves nothing behind, although one that is added to a model may leave its
source: while facts of a class are left, the type of the class is a vertex already
(`Analysis.Reached.fits`).

In either case the tasks that are left are those that were left before, and in a run that is not
stopped they all have their turn.
-/

namespace CodeMetrics

open BytecodeScan (Progress)

variable {σ : Type}

namespace Task

/-- What a fact declares. -/
def declaration? : Task → Option (Phase × Declaration)
  | item (.declaration d) => some (.source, d)
  | field c _ declared => some (.bytecode, ⟨.field, c.fieldKey declared, some c.key⟩)
  | method c _ m => some (.bytecode, ⟨.method, c.methodKey m, some c.key⟩)
  | _ => none

/-- The dependency that a fact stands for.  That of a reference is counted after visitors were told
of the reference. -/
def dependency? : Task → Option Dependency
  | superclass c _ => c.superclass.map (⟨c.key, ·, .extension⟩)
  | interface c _ key => some ⟨c.key, key, .implementation⟩
  | dependency c _ r => some ⟨c.key, r.owner, r.edgeKind⟩
  | _ => none

end Task

/-! ## Refusals -/

namespace Findings

variable {f : Findings} {c : ClassFacts} {type : Handle}

/-- A refused declaration leaves a conflict, and no other trace in the findings. -/
theorem declareFact_of_refused (coherent : f.index.Coherent) (phase : Phase) {d : Declaration}
    {e : IndexError} (refused : f.index.register d.key d.kind d.parent = .error e) :
    ∃ existing, e = .kindConflict d.key existing d.kind ∧
      f.declareFact phase d.key d.kind d.parent =
        (none, f.record (.kindConflict phase d.key existing d.kind)) := by
  have declared : f.declare d.key d.kind d.parent = (.error e, f) := by
    unfold declare Model.register
    rw [refused]
    rfl
  obtain ⟨existing, rfl⟩ := declare_error_eq coherent (by rw [declared])
  refine ⟨existing, rfl, ?_⟩
  unfold declareFact
  rw [declared]
  rfl

/-- A refused dependency of a class that is open leaves a rejection, and nothing else.  The type of
the class is a vertex already, and the target gets none. -/
theorem depend_of_refused (sound : f.toModel.Sound) (opens : f.Opens c type) {target : String}
    {kind : EdgeKind} {e : GraphError}
    (refused : (f.toModel.addEdge c.key target kind).1 = .error e) :
    f.depend c.key target kind = (false, f.record (.rejected .bytecode target e.message)) := by
  have coherent := sound.index.toCoherent
  -- the class is a vertex, so resolving it changes nothing
  have source : f.toModel.resolve c.key = (.ok type, f.toModel) := by
    have present : (f.graph.addVertex type).2 = f.graph :=
      (Graph.addVertex_eq_self_iff f.graph type).mpr opens.vertex
    rw [Model.resolve_of_isType coherent opens.isType]
    show (_, ({ f.toModel with graph := (f.graph.addVertex type).2 } : Model)) = _
    rw [present]
  by_cases self : c.key = target
  · rw [Model.addEdge, if_pos self] at refused
    cases refused
  · rw [depend_eq]
    rw [Model.addEdge, if_neg self, source] at refused ⊢
    dsimp only at refused ⊢
    rcases Model.resolve_cases coherent target with ⟨t, m, found, -⟩ | ⟨existing, unfit, -⟩
    · rw [found] at refused
      cases refused
    · rw [unfit] at refused ⊢
      cases refused
      rfl

end Findings

/-! ## Steps that are refused -/

/-- From `s` to `t` an issue was recorded.  No element and no edge has changed, and no visitor was
called. -/
structure Session.Notes (i : Issue) (s t : Session σ) : Prop where
  index : t.findings.index = s.findings.index
  graph : t.findings.graph = s.findings.graph
  config : t.findings.config = s.findings.config
  report : t.findings.report = s.findings.report.record i
  roster : t.roster = s.roster
  transcript : t.transcript = s.transcript

namespace Task

variable {task : Task} {s : Session σ} {progress : Progress}

/-- A class whose superclass is refused is a root. -/
def asRoot (f : Findings) : Task → Findings
  | superclass _ type => f.recordSuperclass type none
  | _ => f

/-- A refused declaration is the end of its task.  No event is told of it, and no part of the task
is left. -/
theorem step_of_refused_declaration {phase : Phase} {d : Declaration} {f : Findings}
    (declares : task.declaration? = some (phase, d))
    (refused : s.findings.declareFact phase d.key d.kind d.parent = (none, f)) :
    (task.step progress).runOn s = (.ok ([], progress), { s with findings := f }) := by
  cases task with
  | item i =>
      cases i with
      | declaration d' =>
          cases declares
          rw [step, Scanning.runOn_bind_of_ok (Scanning.runOn_edit _), refused]
          rfl
      | _ => cases declares
  | field c type declared =>
      cases declares
      have stepped : ((field c type declared).step progress).runOn s = (.ok ([], progress),
        { s with findings := (s.findings.declareFact .bytecode _ .field (some c.key)).2 }) := rfl
      rw [stepped, refused]
  | method c type m =>
      cases declares
      rw [step, Scanning.runOn_bind_of_ok (Scanning.runOn_edit _), refused]
      rfl
  | _ => cases declares

/-- Only the facts of a class stand for dependencies, and these are dependencies of the class. -/
theorem class?_of_dependency? {d : Dependency} (depends : task.dependency? = some d) :
    ∃ c type, task.class? = some (c, type) ∧ d.source = c.key := by
  cases task with
  | superclass c type =>
      obtain ⟨above, -, rfl⟩ := Option.map_eq_some_iff.mp depends
      exact ⟨c, type, rfl, rfl⟩
  | interface c type key =>
      cases depends
      exact ⟨c, type, rfl, rfl⟩
  | dependency c type r =>
      cases depends
      exact ⟨c, type, rfl, rfl⟩
  | _ => cases depends

theorem notes_asRoot (task : Task) (s : Session σ) (i : Issue) :
    s.Notes i { s with findings := task.asRoot (s.findings.record i) } := by
  cases task <;> exact ⟨rfl, rfl, rfl, rfl, rfl, rfl⟩

/-- A refused dependency is the end of its task.  If it was that of a superclass, the class is
recorded as a root. -/
theorem step_of_refused_dependency {d : Dependency} {f : Findings}
    (depends : task.dependency? = some d)
    (refused : s.findings.depend d.source d.target d.kind = (false, f)) :
    (task.step progress).runOn s = (.ok ([], progress), { s with findings := task.asRoot f }) := by
  cases task with
  | superclass c type =>
      obtain ⟨above, named, rfl⟩ := Option.map_eq_some_iff.mp depends
      have stepped : ((superclass c type).step progress).runOn s =
        (.ok ([], progress), { s with findings := s.findings.addSuperclass c type }) := rfl
      rw [stepped, Findings.addSuperclass, named]
      simp only [refused]
      rfl
  | interface c type key =>
      cases depends
      have stepped : ((interface c type key).step progress).runOn s = (.ok ([], progress),
        { s with findings := (s.findings.depend c.key key .implementation).2 }) := rfl
      rw [stepped, refused]
      rfl
  | dependency c type r =>
      cases depends
      have stepped : ((dependency c type r).step progress).runOn s =
        (.ok ([], progress), { s with findings := s.findings.addReference c r }) := rfl
      rw [stepped, Findings.addReference_eq, refused]
      rfl
  | _ => cases depends

end Task

/-! ## Whole runs -/

namespace Analysis

variable {config : Config} {visitors : List (External σ × Subscription)}
  {sources : List SourceFile} {artifacts : List Artifact} {task : Task} {rest : List Task}
  {progress : Progress} {s : Session σ}

/-- **A refused fact leaves the model intact**, at every point of every run, whoever listens.

The run goes on from a point by carrying out the tasks that are left.  If the first one declares
something that the index refuses, one conflict is recorded; if it stands for a dependency that the
graph refuses, one rejection is recorded, and a class whose superclass this was is a root.  Either
way the model stays as it is, no visitor is called, no site counts as seen, and nothing is left of
the task.  All facts of a class that is accepted are tasks, and in a run that is not stopped every
task has its turn. -/
theorem refused_facts_leave_model
    (reached : Reached config visitors sources artifacts (task :: rest) progress s) :
    runSession config visitors sources artifacts =
        (do
          let _ ← (task :: rest).foldlM Task.carryOut progress
          finish : Scanning σ Unit).runOn s ∧
      (∀ phase d e, task.declaration? = some (phase, d) →
        s.findings.index.register d.key d.kind d.parent = .error e →
        ∃ existing t, e = .kindConflict d.key existing d.kind ∧
          (task.step progress).runOn s = (.ok ([], progress), t) ∧
          s.Notes (.kindConflict phase d.key existing d.kind) t ∧
          t.findings.superclasses = s.findings.superclasses) ∧
      (∀ d e, task.dependency? = some d →
        (s.findings.toModel.addEdge d.source d.target d.kind).1 = .error e →
        ∃ t, (task.step progress).runOn s = (.ok ([], progress), t) ∧
          s.Notes (.rejected .bytecode d.target e.message) t ∧
          t.findings.superclasses = (task.asRoot s.findings).superclasses) ∧
      (∀ path c type f, task = .item (.decoded path c) →
        s.findings.resolveType c.key = (.ok type, f) → type ∉ progress.types →
        (task.step progress).runOn s =
          (.ok (c.tasks type, progress), { s with findings := f.entered type })) ∧
      (∀ parts progress' t, (task.step progress).runOn s = (.ok (parts, progress'), t) →
        Reached config visitors sources artifacts (parts ++ rest) progress' t ∧
        ((runSession config visitors sources artifacts).1 = .ok () → ∀ other ∈ parts ++ rest,
          ∃ later progress' t,
            Reached config visitors sources artifacts (other :: later) progress' t)) := by
  obtain ⟨sound, fits⟩ := reached.fits
  refine ⟨reached.runSession_eq, ?_, ?_, ?_, ?_⟩
  · intro phase d e declares refused
    obtain ⟨existing, rfl, answer⟩ :=
      Findings.declareFact_of_refused sound.index.toCoherent phase refused
    exact ⟨existing, _, rfl, Task.step_of_refused_declaration declares answer,
      ⟨rfl, rfl, rfl, rfl, rfl, rfl⟩, rfl⟩
  · intro d e depends refused
    obtain ⟨c, type, facts, source⟩ := Task.class?_of_dependency? depends
    rw [source] at refused
    have opens := fits task List.mem_cons_self c type facts
    have answer := Findings.depend_of_refused sound opens refused
    rw [← source] at answer
    refine ⟨_, Task.step_of_refused_dependency depends answer, Task.notes_asRoot task s _, ?_⟩
    cases task <;> rfl
  · intro path c type f is resolved new
    subst is
    rw [Task.step, Scanning.runOn_bind_of_ok (Scanning.runOn_edit _), resolved]
    dsimp only
    rw [if_neg new]
    rfl
  · intro parts progress' t stepped
    have next := Reached.step reached stepped
    exact ⟨next, fun ended other among => next.turn ended among⟩

section Misfits

/-- A type with a method, and a package; the type is also reported as a package. -/
def misfitSources : List SourceFile :=
  [{ path := "A.java",
     result := .ok [⟨.type, "A", none⟩, ⟨.method, "A#x", some "A"⟩, ⟨.package, "p", none⟩,
      ⟨.package, "A", none⟩] }]

/-- A class that extends the package, with a field that is known as a method, a method that is known
as a field, and another method that calls the package. -/
def misfitClasses : List Artifact :=
  [{ path := "A.class",
     classes := [
      { key := "A", superclass := some "p", interfaces := [], fields := [⟨"x"⟩, ⟨"y"⟩],
        methods := [⟨"m()V", [.call ⟨0, "p", "f()V"⟩]⟩, ⟨"y", [.call ⟨0, "B", "f()V"⟩]⟩] }],
     error := none }]

/-- The points of a run over them, without external visitors. -/
def misfitPoint (n : Nat) : List Task × Progress × Session Unit :=
  pointAfter {} [] misfitSources misfitClasses n

/-- The run comes to the method that is a field, and to the superclass that is a package. -/
theorem refused_facts_leave_model_misfits :
    (∃ task rest progress s t,
        Reached {} ([] : List (External Unit × Subscription)) misfitSources misfitClasses
          (task :: rest) progress s ∧
        task.declaration? = some (.bytecode, ⟨.method, "A#y", some "A"⟩) ∧
        (task.step progress).runOn s = (.ok ([], progress), t) ∧
        s.Notes (.kindConflict .bytecode "A#y" .field .method) t) ∧
      ∃ task rest progress s t,
        Reached {} ([] : List (External Unit × Subscription)) misfitSources misfitClasses
          (task :: rest) progress s ∧
        task.dependency? = some ⟨"A", "p", .extension⟩ ∧
        (task.step progress).runOn s = (.ok ([], progress), t) ∧
        s.Notes (.rejected .bytecode "p" "p is a package, not a type") t := by
  constructor
  · have evaluated : (misfitPoint 23).1.head?.bind Task.declaration? =
          some (.bytecode, ⟨.method, "A#y", some "A"⟩) ∧
        ((misfitPoint 23).2.2.findings.index.register "A#y" .method (some "A")).map Prod.fst =
          .error (.kindConflict "A#y" .field .method) := by
      decide +kernel
    rcases point : misfitPoint 23 with ⟨_ | ⟨task, rest⟩, progress, s⟩
    · rw [point] at evaluated
      cases evaluated.1
    · rw [point] at evaluated
      obtain ⟨declares, refused⟩ := evaluated
      have reached := Reached.iff_pointAfter.mpr ⟨23, point⟩
      obtain ⟨-, declarations, -⟩ := refused_facts_leave_model reached
      cases answer : s.findings.index.register "A#y" .method (some "A") with
      | ok result =>
          rw [answer] at refused
          cases refused
      | error e =>
          rw [answer] at refused
          cases refused
          obtain ⟨existing, t, same, stepped, notes, -⟩ := declarations _ _ _ declares answer
          cases same
          exact ⟨task, rest, progress, s, t, reached, declares, stepped, notes⟩
  · have evaluated : (misfitPoint 14).1.head?.bind Task.dependency? =
          some ⟨"A", "p", .extension⟩ ∧
        ((misfitPoint 14).2.2.findings.toModel.addEdge "A" "p" .extension).1 =
          .error (.notAType "p" .package) := by
      decide +kernel
    rcases point : misfitPoint 14 with ⟨_ | ⟨task, rest⟩, progress, s⟩
    · rw [point] at evaluated
      cases evaluated.1
    · rw [point] at evaluated
      obtain ⟨depends, refused⟩ := evaluated
      have reached := Reached.iff_pointAfter.mpr ⟨14, point⟩
      obtain ⟨-, -, dependencies, -⟩ := refused_facts_leave_model reached
      obtain ⟨t, stepped, notes, -⟩ := dependencies _ _ depends refused
      exact ⟨task, rest, progress, s, t, reached, depends, stepped, notes⟩

end Misfits

end Analysis

end CodeMetrics
