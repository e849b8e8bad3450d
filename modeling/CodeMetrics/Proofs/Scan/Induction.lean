import CodeMetrics.Proofs.Index.Kinds
import CodeMetrics.Proofs.Scan.Running

/-!
# Induction over scans

A scan changes the findings and tells visitors of events, and any visitor may stop it.
`Scanning.Runs` speaks of both ends of a computation: of the answer and the session if there is an
answer, and of the error and the session if a visitor has stopped it.

What holds all along a scan is shown step by step.  `SourceScan.Steps` and `BytecodeScan.Steps` list
the steps; their `run` says that the whole scan keeps what every step keeps.  Nothing else needs to
know how the scans are put together.
-/

namespace CodeMetrics

namespace Scanning

variable {σ α β : Type} {s t : Session σ}

/-! ## Computations that end or are stopped -/

/-- An answer and its session satisfy `post`; an error and its session satisfy `stop`. -/
def Runs (x : Scanning σ α) (s : Session σ) (post : α → Session σ → Prop)
    (stop : RunError → Session σ → Prop) : Prop :=
  match x.runOn s with
  | (.ok a, t) => post a t
  | (.error e, t) => stop e t

/-- An error ends a computation; what would come next is not carried out, and the session stays. -/
theorem runOn_bind_of_error {x : Scanning σ α} {k : α → Scanning σ β} {e : RunError}
    (first : x.runOn s = (.error e, t)) : (x >>= k).runOn s = (.error e, t) := by
  have run : (ExceptT.run x).run s = pure (.error e, t) := first
  simp only [runOn, ExceptT.run_bind, StateT.run_bind, run, pure_bind]
  rfl

/-- What ends with an answer got one from its first part. -/
theorem exists_of_bind_ok {x : Scanning σ α} {k : α → Scanning σ β} {b : β}
    (ended : ((x >>= k).runOn s).1 = .ok b) :
    ∃ a t, x.runOn s = (.ok a, t) ∧ (x >>= k).runOn s = (k a).runOn t := by
  rcases run : x.runOn s with ⟨e | a, t⟩
  · rw [runOn_bind_of_error run] at ended
    cases ended
  · exact ⟨a, t, rfl, runOn_bind_of_ok run⟩

/-- A loop without an answer is a loop whose answer says nothing. -/
theorem forM_eq_foldlM (step : α → Scanning σ Unit) (l : List α) :
    l.forM step = l.foldlM (fun _ a => step a) () := by
  induction l with
  | nil => rfl
  | cons a rest ih =>
      show (step a >>= fun _ => rest.forM step) = _
      rw [ih]
      rfl

namespace Runs

variable {x : Scanning σ α} {post : α → Session σ → Prop} {stop : RunError → Session σ → Prop}

/-- A computation that is known to end satisfies any condition on errors. -/
theorem of_ok {a : α} (run : x.runOn s = (.ok a, t)) (holds : post a t) : x.Runs s post stop := by
  unfold Runs
  rw [run]
  exact holds

/-- A computation that is known to be stopped satisfies any condition on answers. -/
theorem of_error {e : RunError} (run : x.runOn s = (.error e, t)) (holds : stop e t) :
    x.Runs s post stop := by
  unfold Runs
  rw [run]
  exact holds

/-- What holds at the end of a computation, where it ends. -/
theorem ok {a : α} (runs : x.Runs s post stop) (run : x.runOn s = (.ok a, t)) : post a t := by
  unfold Runs at runs
  rw [run] at runs
  exact runs

/-- What holds where a computation is stopped. -/
theorem error {e : RunError} (runs : x.Runs s post stop) (run : x.runOn s = (.error e, t)) :
    stop e t := by
  unfold Runs at runs
  rw [run] at runs
  exact runs

/-- A computation that ends in any case is never stopped. -/
theorem of_ends (ends : x.Ends s post) : x.Runs s post stop := by
  obtain ⟨a, t, run, holds⟩ := ends
  exact .of_ok run holds

/-- A computation that nothing can stop ends. -/
theorem ends (runs : x.Runs s post fun _ _ => False) : x.Ends s post := by
  rcases run : x.runOn s with ⟨e | a, t⟩
  · exact (runs.error run).elim
  · exact ⟨a, t, run, runs.ok run⟩

theorem pure {a : α} (holds : post a s) : Runs (Pure.pure a) s post stop := .of_ok rfl holds

/-- Both conditions may be weakened. -/
theorem mono {post' : α → Session σ → Prop} {stop' : RunError → Session σ → Prop}
    (runs : x.Runs s post stop) (weaker : ∀ a t, post a t → post' a t)
    (weaker' : ∀ e t, stop e t → stop' e t) : x.Runs s post' stop' := by
  rcases run : x.runOn s with ⟨e | a, t⟩
  · exact .of_error run (weaker' e t (runs.error run))
  · exact .of_ok run (weaker a t (runs.ok run))

/-- Two facts about the end of one computation hold together.  About errors only the first of them
need say something. -/
theorem and {post' : α → Session σ → Prop} (runs : x.Runs s post stop)
    (runs' : x.Runs s post' fun _ _ => True) : x.Runs s (fun a t => post a t ∧ post' a t) stop := by
  rcases run : x.runOn s with ⟨e | a, t⟩
  · exact .of_error run (runs.error run)
  · exact .of_ok run ⟨runs.ok run, runs'.ok run⟩

/-- Computations one after the other.  An error of either of them stops the whole, so both have the
same condition on errors. -/
theorem bind {k : α → Scanning σ β} {middle : α → Session σ → Prop}
    {post : β → Session σ → Prop} (first : x.Runs s middle stop)
    (rest : ∀ a t, middle a t → (k a).Runs t post stop) : (x >>= k).Runs s post stop := by
  rcases run : x.runOn s with ⟨e | a, t⟩
  · exact .of_error (runOn_bind_of_error run) (first.error run)
  · unfold Runs
    rw [runOn_bind_of_ok run]
    exact rest a t (first.ok run)

/-- A change of the findings ends in any case. -/
theorem alter {change : Findings → Findings} {post : Unit → Session σ → Prop}
    (holds : post () { s with findings := change s.findings }) :
    (Scanning.alter change).Runs s post stop :=
  .of_ok (runOn_alter change) holds

/-- The findings are changed first. -/
theorem alter_bind {change : Findings → Findings} {k : Unit → Scanning σ α}
    (rest : (k ()).Runs { s with findings := change s.findings } post stop) :
    (Scanning.alter change >>= k).Runs s post stop := by
  unfold Runs
  rw [runOn_bind_of_ok (runOn_alter change)]
  exact rest

/-- The findings are changed first, and the answer is used. -/
theorem edit_bind {change : Findings → β × Findings} {k : β → Scanning σ α}
    (rest : (k (change s.findings).1).Runs
      { s with findings := (change s.findings).2 } post stop) :
    (Scanning.edit change >>= k).Runs s post stop := by
  unfold Runs
  rw [runOn_bind_of_ok (runOn_edit change)]
  exact rest

/-- The findings are read first. -/
theorem findings_bind {k : Findings → Scanning σ α} (rest : (k s.findings).Runs s post stop) :
    (Scanning.findings >>= k).Runs s post stop := by
  have first : Scanning.findings.runOn s = (.ok s.findings, s) := rfl
  unfold Runs
  rw [runOn_bind_of_ok first]
  exact rest

/-- A loop keeps what every round keeps of what is done so far.  The rounds may use that their entry
is one of the list. -/
theorem foldlM_mem {step : β → α → Scanning σ β} (invariant : List α → β → Session σ → Prop)
    (l : List α) {b : β} (start : invariant [] b s)
    (round : ∀ done a b t, a ∈ l → invariant done b t →
      (step b a).Runs t (invariant (done ++ [a])) stop) :
    (l.foldlM step b).Runs s (invariant l) stop := by
  suffices general : ∀ (rest done : List α) (b : β) (t : Session σ), (∀ a ∈ rest, a ∈ l) →
      invariant done b t → (rest.foldlM step b).Runs t (invariant (done ++ rest)) stop from
    general l [] b s (fun _ => id) start
  intro rest
  induction rest with
  | nil =>
      intro done b t _ holds
      rw [List.append_nil]
      exact .pure holds
  | cons a rest ih =>
      intro done b t listed holds
      obtain ⟨first, others⟩ := List.forall_mem_cons.mp listed
      rw [List.foldlM_cons, ← List.singleton_append, ← List.append_assoc]
      exact (round done a b t first holds).bind fun b' u holds' =>
        ih (done ++ [a]) b' u others holds'

/-- A loop keeps an invariant over what is done so far, if every round does.  It ends with
everything done, or is stopped in one of the rounds. -/
theorem foldlM {step : β → α → Scanning σ β} (invariant : List α → β → Session σ → Prop)
    (l : List α) {b : β} (start : invariant [] b s)
    (round : ∀ done a b t, invariant done b t →
      (step b a).Runs t (invariant (done ++ [a])) stop) :
    (l.foldlM step b).Runs s (invariant l) stop :=
  .foldlM_mem invariant l start fun done a b t _ => round done a b t

/-- A loop without an answer. -/
theorem forM_mem {step : α → Scanning σ Unit} (invariant : List α → Session σ → Prop) (l : List α)
    (start : invariant [] s)
    (round : ∀ done a t, a ∈ l → invariant done t →
      (step a).Runs t (fun _ u => invariant (done ++ [a]) u) stop) :
    (l.forM step).Runs s (fun _ u => invariant l u) stop := by
  rw [forM_eq_foldlM]
  exact .foldlM_mem (fun done _ t => invariant done t) l start fun done a _ t => round done a t

/-- A loop without an answer keeps an invariant over what is done so far, if every round does. -/
theorem forM {step : α → Scanning σ Unit} (invariant : List α → Session σ → Prop) (l : List α)
    (start : invariant [] s)
    (round : ∀ done a t, invariant done t →
      (step a).Runs t (fun _ u => invariant (done ++ [a]) u) stop) :
    (l.forM step).Runs s (fun _ u => invariant l u) stop :=
  .forM_mem invariant l start fun done a t _ => round done a t

end Runs

end Scanning

open Scanning

variable {σ : Type} {s : Session σ} {stop : RunError → Session σ → Prop}

/-- A fact that was registered has an element. -/
theorem Findings.knows_of_declareFact {f : Findings} {phase : Phase} {key : String} {kind : Kind}
    {parent : Option String} {h : Handle} (coherent : f.index.Coherent)
    (accepted : (f.declareFact phase key kind parent).1 = some h) :
    (f.declareFact phase key kind parent).2.index.Knows h := by
  unfold declareFact at accepted ⊢
  split at accepted
  · next g f' ok =>
      cases accepted
      exact .of_key? (Index.register_registers coherent (declare_eq_ok ok).1).named
  · cases accepted

/-! ## The source scan -/

namespace SourceScan

/-- All events of the source scan belong to it, none is the end of a type, and each is about the
element that was declared. -/
theorem event?_eq_some {ix : Index} {h : Handle} {d : Declaration} {e : Event}
    (told : event? ix h d = some e) :
    e.phase = .source ∧ e.kind ≠ .leaveType ∧ e.element? = some h := by
  unfold event? at told
  split at told
  · cases told
    exact ⟨rfl, (by decide : EventKind.type ≠ .leaveType), rfl⟩
  · cases told
    exact ⟨rfl, (by decide : EventKind.method ≠ .leaveType), rfl⟩
  · cases told

/-- What holds after a number of files is kept by every step of the source scan. -/
structure Steps (holds : Nat → Session σ → Prop) (stop : RunError → Session σ → Prop) : Prop where
  coherent : ∀ {n : Nat} {s : Session σ}, holds n s → s.findings.index.Coherent
  say : ∀ {n : Nat} {s : Session σ} (level : Level) (message : String), holds n s →
    holds n { s with findings := s.findings.say level message }
  skip : ∀ {n : Nat} {s : Session σ} (path message : String), holds n s →
    holds (n + 1) { s with findings := s.findings.record (.parseFailed path message) }
  declare : ∀ {n : Nat} {s : Session σ} (d : Declaration), holds n s →
    holds n { s with findings := (s.findings.declareFact .source d.key d.kind d.parent).2 }
  tell : ∀ {n : Nat} {s : Session σ} {e : Event}, e.phase = .source → e.kind ≠ .leaveType →
    (∀ {h : Handle}, e.element? = some h → s.findings.index.Knows h) →
    holds n s → (dispatch e).Runs s (fun _ t => holds n t) stop
  count : ∀ {n : Nat} {s : Session σ}, holds n s →
    holds (n + 1) { s with findings := countFile s.findings }

namespace Steps

variable {holds : Nat → Session σ → Prop} {n : Nat}

/-- What the steps of a source scan keep is kept by one declaration: registered or refused, and told
of where there is something to tell. -/
theorem applyDeclaration (steps : Steps holds stop) (d : Declaration) (start : holds n s) :
    (applyDeclaration d).Runs s (fun _ t => holds n t) stop := by
  have declared := steps.declare d start
  unfold SourceScan.applyDeclaration
  refine .edit_bind ?_
  cases accepted : (s.findings.declareFact .source d.key d.kind d.parent).1 with
  | none => exact .pure declared
  | some h =>
      have known := Findings.knows_of_declareFact (steps.coherent start) accepted
      refine .findings_bind ?_
      split
      · exact .pure declared
      · next e told =>
          obtain ⟨source, staying, element⟩ := event?_eq_some told
          refine steps.tell source staying (fun {g} about => ?_) declared
          rw [element, Option.some.injEq] at about
          exact about ▸ known

/-- A file is one more that was read, whether it could be parsed or not. -/
theorem scanFile (steps : Steps holds stop) (file : SourceFile) (start : holds n s) :
    (scanFile file).Runs s (fun _ t => holds (n + 1) t) stop := by
  unfold SourceScan.scanFile
  cases file.result with
  | error e => exact .alter (steps.skip _ _ start)
  | ok declarations =>
      refine .alter_bind ?_
      refine Runs.bind (.forM (fun _ t => holds n t) declarations (steps.say _ _ start) ?_) ?_
      · intro _ d t kept
        exact steps.applyDeclaration d kept
      · intro _ t kept
        exact .alter (steps.count kept)

/-- What the steps of a source scan keep is kept by the whole scan, and all files were read. -/
theorem run (steps : Steps holds stop) (files : List SourceFile) (start : holds 0 s) :
    (SourceScan.run files).Runs s (fun _ t => holds files.length t) stop := by
  unfold SourceScan.run
  refine .alter_bind ?_
  refine Runs.bind
    (.forM (fun done t => holds done.length t) files (steps.say _ _ start) ?_) ?_
  · intro done file t kept
    rw [List.length_append]
    exact steps.scanFile file kept
  · intro _ t kept
    refine (steps.tell rfl (by decide) (by rintro h ⟨⟩) kept).bind fun _ u told => ?_
    exact .alter (steps.say _ _ told)

end Steps

end SourceScan

/-! ## The bytecode scan -/

/-- An event inside of a class. -/
inductive Event.Inside (type : Handle) : Event → Prop where
  | method {visit : MethodVisit} (phase : visit.phase = .bytecode)
      (owner : visit.owner = some type) : Inside type (.method visit)
  | reference {visit : ReferenceVisit} (element : visit.element = type) :
      Inside type (.reference visit)

/-- Nothing ends inside of a class. -/
theorem Event.Inside.goes_on {type : Handle} {e : Event} (inside : e.Inside type) :
    e.phase = .bytecode ∧ e.kind ≠ .endScan ∧ e.kind ≠ .leaveType := by
  cases inside with
  | method phase owner =>
      exact ⟨phase, (by decide : EventKind.method ≠ .endScan),
        (by decide : EventKind.method ≠ .leaveType)⟩
  | reference element =>
      exact ⟨rfl, (by decide : EventKind.reference ≠ .endScan),
        (by decide : EventKind.reference ≠ .leaveType)⟩

namespace BytecodeScan

/-- What holds between two classes and what holds inside of a class, after some classes and a number
of artifacts that failed, is kept by every step of the bytecode scan.  The handles are the types that
were applied before. -/
structure Steps (between : List ClassFacts → Nat → List Handle → Session σ → Prop)
    (inside : List ClassFacts → Nat → List Handle → ClassFacts → Handle → Session σ → Prop)
    (stop : RunError → Session σ → Prop) : Prop where
  coherent : ∀ {cs n types c type} {s : Session σ}, inside cs n types c type s →
    s.findings.index.Coherent
  say : ∀ {cs n types} {s : Session σ} (level : Level) (message : String), between cs n types s →
    between cs n types { s with findings := s.findings.say level message }
  fail : ∀ {cs n types} {s : Session σ} (path message : String) (kept : Nat),
    between cs n types s → between cs (n + 1) types
      { s with findings := s.findings.record (.decodeFailed path message kept) }
  refuse : ∀ {cs n types} {s : Session σ} {c : ClassFacts} {e : IndexError} {f : Findings},
    between cs n types s → s.findings.resolveType c.key = (.error e, f) →
    between (cs ++ [c]) n types
      { s with findings := f.record (.ofIndexError .bytecode c.key e) }
  again : ∀ {cs n types} {s : Session σ} {c : ClassFacts} {type : Handle} {f : Findings}
    (path : String), between cs n types s → s.findings.resolveType c.key = (.ok type, f) →
    type ∈ types → between (cs ++ [c]) n types
      { s with findings := f.record (.duplicateClass path c.key) }
  enter : ∀ {cs n types} {s : Session σ} {c : ClassFacts} {type : Handle} {f : Findings},
    between cs n types s → s.findings.resolveType c.key = (.ok type, f) → type ∉ types →
    (dispatch (.type (typeVisit c type))).Runs { s with findings := f.openClass c type }
      (fun _ t => inside cs n types c type t) stop
  declare : ∀ {cs n types c type} {s : Session σ} {m : Method}, m ∈ c.methods →
    inside cs n types c type s → inside cs n types c type { s with
      findings := (s.findings.declareFact .bytecode (c.methodKey m) .method (some c.key)).2 }
  tell : ∀ {cs n types c type} {s : Session σ} {e : Event}, e.Inside type →
    (∀ visit, e = .method visit → s.findings.index.Knows visit.element) →
    inside cs n types c type s →
    (dispatch e).Runs s (fun _ t => inside cs n types c type t) stop
  refer : ∀ {cs n types c type} {s : Session σ} (r : Reference), inside cs n types c type s →
    inside cs n types c type { s with findings := s.findings.addReference c r }
  leave : ∀ {cs n types c type} {s : Session σ}, inside cs n types c type s →
    (dispatch (.leaveType (typeVisit c type))).Runs s
      (fun _ t => between (cs ++ [c]) n (type :: types) t) stop
  close : ∀ {cs n types} {s : Session σ}, between cs n types s →
    (dispatch (.endScan .bytecode)).Runs s (fun _ t => between cs n types t) stop

namespace Steps

variable {between : List ClassFacts → Nat → List Handle → Session σ → Prop}
  {inside : List ClassFacts → Nat → List Handle → ClassFacts → Handle → Session σ → Prop}
  {cs : List ClassFacts} {n : Nat} {types : List Handle} {c : ClassFacts} {type : Handle}

/-- What the steps of a bytecode scan keep inside a class is kept by one reference. -/
theorem scanReference (steps : Steps between inside stop) (method : Handle) (methodKey : String)
    (sites : List (Handle × UInt32)) (r : Reference) (start : inside cs n types c type s) :
    (scanReference c type method methodKey sites r).Runs s
      (fun _ t => inside cs n types c type t) stop := by
  unfold BytecodeScan.scanReference
  split
  · exact .pure start
  · refine (steps.tell (.reference rfl) (by rintro visit ⟨⟩) start).bind fun _ t told => ?_
    exact .alter_bind (.pure (steps.refer r told))

/-- What the steps of a bytecode scan keep inside a class is kept by one method with its body. -/
theorem scanMethod (steps : Steps between inside stop) (sites : List (Handle × UInt32))
    {m : Method} (listed : m ∈ c.methods) (start : inside cs n types c type s) :
    (scanMethod c type sites m).Runs s (fun _ t => inside cs n types c type t) stop := by
  have declared := steps.declare listed start
  unfold BytecodeScan.scanMethod
  refine .edit_bind ?_
  cases accepted : (s.findings.declareFact .bytecode (c.methodKey m) .method (some c.key)).1 with
  | none => exact .pure declared
  | some method =>
      have known := Findings.knows_of_declareFact (steps.coherent start) accepted
      refine (steps.tell (.method rfl rfl) (by rintro visit ⟨⟩; exact known) declared).bind
        fun _ t told => ?_
      exact .foldlM (fun _ _ t => inside cs n types c type t) m.body told
        fun _ r sites u kept => steps.scanReference method _ sites r kept

/-- A class that is new, from the moment it is entered. -/
theorem scanMembers (steps : Steps between inside stop) (sites : List (Handle × UInt32))
    {f : Findings} (start : between cs n types s)
    (resolved : s.findings.resolveType c.key = (.ok type, f)) (new : type ∉ types) :
    (scanMembers c type sites).Runs { s with findings := f }
      (fun _ t => between (cs ++ [c]) n (type :: types) t) stop := by
  unfold BytecodeScan.scanMembers
  refine .alter_bind ((steps.enter start resolved new).bind fun _ t entered => ?_)
  refine Runs.bind (.foldlM_mem (fun _ _ t => inside cs n types c type t) c.methods entered ?_) ?_
  · intro _ m sites u listed kept
    exact steps.scanMethod sites listed kept
  · intro sites u kept
    exact (steps.leave kept).bind fun _ v left => .pure left

/-- A class is one more that was read.  It is refused, was met before, or is entered and left again.
-/
theorem scanClass (steps : Steps between inside stop) (path : String) (c : ClassFacts)
    {progress : Progress} (start : between cs n progress.types s) :
    (scanClass path progress c).Runs s
      (fun progress t => between (cs ++ [c]) n progress.types t) stop := by
  unfold BytecodeScan.scanClass
  refine .edit_bind ?_
  rcases resolved : s.findings.resolveType c.key with ⟨e | type, f⟩
  · have refused := steps.refuse start resolved
    exact .alter_bind (.pure refused)
  · dsimp only
    split
    · next known =>
        have repeated := steps.again path start resolved known
        exact .alter_bind (.pure repeated)
    · next new =>
        exact (steps.scanMembers progress.sites start resolved new).bind fun sites t left =>
          .pure left

/-- The classes of an artifact, one after the other. -/
theorem scanClasses (steps : Steps between inside stop) (path : String)
    (classes : List ClassFacts) {progress : Progress} (start : between cs n progress.types s) :
    (classes.foldlM (BytecodeScan.scanClass path) progress).Runs s
      (fun progress t => between (cs ++ classes) n progress.types t) stop := by
  refine Runs.foldlM (fun done (progress : Progress) t => between (cs ++ done) n progress.types t)
    classes ?_ fun done c progress t kept => ?_
  · rw [List.append_nil]
    exact start
  · rw [← List.append_assoc]
    exact steps.scanClass path c kept

/-- An artifact, with its classes; it counts as failed if it has an error. -/
theorem scanArtifact (steps : Steps between inside stop) (a : Artifact) {progress : Progress}
    (start : between cs n progress.types s) :
    (scanArtifact progress a).Runs s (fun progress t =>
      between (cs ++ a.classes) (n + if a.error.isSome then 1 else 0) progress.types t) stop := by
  unfold BytecodeScan.scanArtifact
  cases a.error with
  | none => exact .alter_bind (steps.scanClasses a.path a.classes (steps.say _ _ start))
  | some e =>
      refine (steps.scanClasses a.path a.classes start).bind fun progress t kept => ?_
      exact .alter_bind (.pure (steps.fail _ _ _ kept))

/-- The whole scan: all classes were read, and every failing artifact was met. -/
theorem run (steps : Steps between inside stop) (artifacts : List Artifact)
    (start : between [] 0 [] s) :
    (BytecodeScan.run artifacts).Runs s (fun _ t => ∃ types,
      between (artifacts.flatMap Artifact.classes) (artifacts.countP (·.error.isSome)) types t)
      stop := by
  unfold BytecodeScan.run
  refine .alter_bind ?_
  refine Runs.bind (.foldlM (fun done (progress : Progress) t =>
    between (done.flatMap Artifact.classes) (done.countP (·.error.isSome)) progress.types t)
    artifacts (steps.say _ _ start) ?_) ?_
  · intro done a progress t kept
    rw [List.flatMap_append, List.countP_append, List.flatMap_singleton, List.countP_singleton]
    exact steps.scanArtifact a kept
  · intro progress t kept
    refine (steps.close kept).bind fun _ u closed => ?_
    exact .alter ⟨progress.types, steps.say _ _ closed⟩

end Steps

end BytecodeScan

end CodeMetrics
