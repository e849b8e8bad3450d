import CodeMetrics.Proofs.Scan.Anatomy
import CodeMetrics.Proofs.Scan.Members
import CodeMetrics.Proofs.Scan.Story

/-!
# What visitors are told

A run tells its visitors the story of its inputs under the index at its end, although it decides with
the index of the moment.  That is because decisions are final: what is registered keeps its kind, and
what is refused is refused for good.  So the invariant of the scans is about every index that the
findings foresee: under each of them the story so far is the one that was told (`Narrates`).

In the source scan it is enough that the index grows (`Reports`); which class is refused matters in
the bytecode scan only.
-/

namespace CodeMetrics

open Scanning Session

variable {σ : Type}

/-! ## Calls -/

/-- The calls that an event leads to, in order. -/
def Badge.deliveries (badges : List Badge) (e : Event) : List (Nat × Event) :=
  (called badges e.phase e.kind).map (·, e)

/-- Who was told of what so far, in order. -/
def Session.told (s : Session σ) : List (Nat × Event) :=
  s.transcript.toList.map fun call => (call.slot, call.event)

namespace Scanning

variable {s : Session σ} {slot : Nat}

/-- A call is told to the visitor in its slot, and leaves all badges as they are. -/
theorem call_tells (e : Event) (there : slot < s.roster.size) :
    (call e slot).Runs s
      (fun _ t => t.told = s.told ++ [(slot, e)] ∧ t.roster.badges = s.roster.badges)
      fun _ _ => True := by
  have found : s.roster[slot]? = some s.roster[slot] := Array.getElem?_eq_getElem there
  cases failure : (s.roster[slot].visitor.react s.findings e).2.failure with
  | some reason => exact .of_error (runOn_call_of_failure found failure) trivial
  | none =>
      refine .of_ok (runOn_call_of_quiet found failure) ⟨?_, Roster.badges_modify found _ e⟩
      simp only [told, answered, Array.toList_push, List.map_append, List.map_singleton]

/-- The calls of one event are told in the order of the slots. -/
theorem calls_tell (e : Event) {slots : List Nat}
    (there : ∀ slot ∈ slots, slot < s.roster.size) :
    (slots.forM (call e)).Runs s
      (fun _ t => t.told = s.told ++ slots.map (·, e) ∧ t.roster.badges = s.roster.badges)
      fun _ _ => True := by
  refine .forM_mem (fun done t => t.told = s.told ++ done.map (·, e) ∧
    t.roster.badges = s.roster.badges) slots ⟨(List.append_nil _).symm, rfl⟩ ?_
  rintro done slot t listed ⟨told, badges⟩
  have size : t.roster.size = s.roster.size := by
    rw [← Roster.length_badges, badges, Roster.length_badges]
  refine (call_tells e (size ▸ there slot listed)).mono ?_ fun _ _ _ => trivial
  rintro - u ⟨told', badges'⟩
  refine ⟨?_, badges'.trans badges⟩
  rw [told', told, List.append_assoc, List.map_append, List.map_singleton]

/-- A dispatched event is told to those whose badges say so, in the order of the roster. -/
theorem dispatch_tells (s : Session σ) (e : Event) :
    (dispatch e).Runs s (fun _ t => t.told = s.told ++ Badge.deliveries s.roster.badges e)
      fun _ _ => True := by
  unfold Runs
  rw [runOn_dispatch, Badge.deliveries, ← Roster.called_eq]
  refine Runs.mono (calls_tell e fun slot called => Roster.lt_of_mem_called called) ?_
    fun _ _ _ => trivial
  rintro - t ⟨told, -⟩
  exact told

/-- Visitors change nothing that a class could be refused for. -/
theorem Heard.advances {t : Session σ} (heard : Heard s () t) (sound : s.findings.toModel.Sound) :
    s.findings.Advances t.findings := by
  obtain ⟨calls, hears, -⟩ := heard
  rw [hears.findings]
  exact .of_within sound ((s.findings.effects_within _).mono fun _ _ => False.elim)

end Scanning

namespace Session

variable {badges : List Badge} {s t u : Session σ} {events events' : List Event} {f : Findings}

/-- From `s` to `t` visitors were told of the events, and the findings advanced. -/
structure Proceeds (badges : List Badge) (events : List Event) (s t : Session σ) : Prop where
  told : t.told = s.told ++ events.flatMap (Badge.deliveries badges)
  advances : s.findings.Advances t.findings

namespace Proceeds

theorem refl (badges : List Badge) (s : Session σ) : Proceeds badges [] s s :=
  ⟨(List.append_nil _).symm, .refl _⟩

theorem trans (first : Proceeds badges events s t) (second : Proceeds badges events' t u) :
    Proceeds badges (events ++ events') s u where
  told := by rw [second.told, first.told, List.append_assoc, List.flatMap_append]
  advances := first.advances.trans second.advances

/-- The scan changes the findings, and nobody is told. -/
theorem alter (proceeds : Proceeds badges events s t) (advances : t.findings.Advances f) :
    Proceeds badges events s { t with findings := f } :=
  ⟨proceeds.told, proceeds.advances.trans advances⟩

end Proceeds

/-- Visitors are told of an event. -/
theorem Sane.tell (sane : Sane badges s) {e : Event}
    (known : ∀ visit, e = .leaveType visit → s.findings.index.Knows visit.element) :
    (Scanning.dispatch e).Runs s (fun _ t => Heard s () t ∧ Proceeds badges [e] s t)
      (Stopped badges) := by
  refine ((sane.dispatch known).and (dispatch_tells s e)).mono ?_ fun _ _ stopped => stopped
  rintro - t ⟨heard, told⟩
  rw [sane.roster] at told
  exact ⟨heard, by rw [told, List.flatMap_singleton], heard.advances sane.sound⟩

end Session

/-! ## The source scan -/

/-- Whether a declaration was accepted can be read off any later index, because what is refused once
is refused for good. -/
theorem Findings.registered?_of_declareFact {f : Findings} {ix : Index} {phase : Phase}
    {key : String} {kind : Kind} {parent : Option String} (sound : f.toModel.Sound)
    (firm : kind ≠ .external) (grows : (f.declareFact phase key kind parent).2.index.Grows ix)
    (coherent : ix.Coherent) :
    ix.registered? key kind = (f.declareFact phase key kind parent).1 := by
  unfold declareFact at grows ⊢
  rcases declared : f.declare key kind parent with ⟨e | h, f'⟩
  · rw [declared] at grows
    obtain ⟨refused, rfl⟩ := declare_eq_error declared
    have refuses := (Index.refuses_iff sound.index.toCoherent parent).mpr ⟨e, refused⟩
    exact Index.registered?_eq_none coherent ((refuses.grows grows).not_has coherent)
  · rw [declared] at grows
    have registers := Index.register_registers sound.index.toCoherent (declare_eq_ok declared).1
    have is := registers.is.resolve_right fun external => firm external.2
    refine (Index.registered?_eq_some_iff coherent).mpr ⟨grows.key_kept registers.named, ?_⟩
    exact (grows.kind_kept is).resolve_right fun external => firm external.1

namespace SourceScan

variable {badges : List Badge} {text text' : Index → List Event} {s t u : Session σ}

/-- The story of a declaration is what visitors are told when it is applied.  The story is read off
a later index, which has the same handle for the key. -/
theorem declarationEvents_eq {f : Findings} {ix : Index} (d : Declaration)
    (sound : f.toModel.Sound)
    (grows : (f.declareFact .source d.key d.kind d.parent).2.index.Grows ix)
    (coherent : ix.Coherent) (now : Index) :
    declarationEvents ix d =
      ((f.declareFact .source d.key d.kind d.parent).1.bind (event? now · d)).toList.map
        Event.unowned := by
  have settled (firm : d.kind ≠ .external) :=
    Findings.registered?_of_declareFact sound firm grows coherent
  unfold declarationEvents event?
  generalize f.declareFact .source d.key d.kind d.parent = result at settled ⊢
  obtain ⟨answer, f'⟩ := result
  cases kind : d.kind with
  | type =>
      rw [kind] at settled
      rw [settled (by decide)]
      cases answer <;> rfl
  | method =>
      rw [kind] at settled
      rw [settled (by decide)]
      cases answer <;> rfl
  | _ => cases answer <;> rfl

/-- From `s` to `t` visitors were told what the text says, whatever index is still to come. -/
structure Reports (badges : List Badge) (text : Index → List Event) (s t : Session σ) : Prop where
  underway : Underway badges [] t
  told : ∃ events : List Event, t.told = s.told ++ events.flatMap (Badge.deliveries badges) ∧
    ∀ {ix : Index}, t.findings.index.Grows ix → ix.Coherent → events.map Event.unowned = text ix

namespace Reports

theorem start (underway : Underway badges [] s) : Reports badges (fun _ => []) s s :=
  ⟨underway, [], (List.append_nil _).symm, fun _ _ => rfl⟩

/-- More is told. -/
theorem extend (reports : Reports badges text s t) (underway : Underway badges [] u)
    (grows : t.findings.index.Grows u.findings.index) {events : List Event}
    (told : u.told = t.told ++ events.flatMap (Badge.deliveries badges))
    (foreseen : ∀ {ix : Index}, u.findings.index.Grows ix → ix.Coherent →
      events.map Event.unowned = text' ix) :
    Reports badges (fun ix => text ix ++ text' ix) s u := by
  obtain ⟨before, told', foreseen'⟩ := reports.told
  refine ⟨underway, before ++ events, ?_, fun grows' coherent => ?_⟩
  · rw [told, told', List.append_assoc, List.flatMap_append]
  · rw [List.map_append, foreseen' (grows.trans grows') coherent, foreseen grows' coherent]

/-- Nothing is told. -/
theorem pass (reports : Reports badges text s t) {f : Findings}
    (underway : Underway badges [] { t with findings := f })
    (grows : t.findings.index.Grows f.index)
    (foreseen : ∀ {ix : Index}, f.index.Grows ix → ix.Coherent → text' ix = []) :
    Reports badges (fun ix => text ix ++ text' ix) s { t with findings := f } := by
  have told : t.told = t.told ++ [].flatMap (Badge.deliveries badges) := (List.append_nil _).symm
  exact reports.extend underway grows told fun grows' coherent => (foreseen grows' coherent).symm

/-- Nothing is told, and the index stays as it is. -/
theorem alter (reports : Reports badges text s t) {f : Findings}
    (underway : Underway badges [] { t with findings := f })
    (index : f.index = t.findings.index) : Reports badges text s { t with findings := f } := by
  obtain ⟨events, told, foreseen⟩ := reports.told
  exact ⟨underway, events, told, fun grows coherent => foreseen (index ▸ grows) coherent⟩

/-- A source fact is told if it is registered, with the handle that a later index has for its key.
If it is refused now it is refused later, so a later index tells the same. -/
theorem applyDeclaration (reports : Reports badges text s t) (d : Declaration) :
    (applyDeclaration d).Runs t
      (fun _ u => Reports badges (fun ix => text ix ++ declarationEvents ix d) s u)
      (Stopped badges) := by
  have sound := reports.underway.sound
  have keeps : t.findings.Keeps (t.findings.declareFact .source d.key d.kind d.parent).2 :=
    Findings.declareFact_keeps sound.index.toCoherent fun _ => rfl
  have underway := reports.underway.keeps keeps
  have grows := keeps.evolves.grows sound
  have story {ix : Index}
      (later : (t.findings.declareFact .source d.key d.kind d.parent).2.index.Grows ix) :=
    declarationEvents_eq d sound later
  unfold SourceScan.applyDeclaration
  refine .edit_bind ?_
  generalize t.findings.declareFact .source d.key d.kind d.parent = declared at *
  obtain ⟨answer, f⟩ := declared
  cases answer with
  | none =>
      -- refused now and refused later, so no index tells of it
      exact .pure (reports.pass underway grows fun grows' coherent => story grows' coherent f.index)
  | some h =>
      refine .findings_bind ?_
      dsimp only
      cases found : event? f.index h d with
      | none =>
          refine .pure (reports.pass underway grows fun grows' coherent => ?_)
          rw [story grows' coherent f.index, Option.bind_some, found]
          rfl
      | some e =>
          obtain ⟨-, staying, -⟩ := event?_eq_some found
          refine (underway.tell ?_).mono ?_ fun _ _ stopped => stopped
          · rintro visit rfl
            exact absurd rfl staying
          · rintro - u ⟨heard, proceeds⟩
            have later := proceeds.advances.grows
            refine reports.extend (underway.heard heard) (grows.trans later) proceeds.told
              fun grows' coherent => ?_
            rw [story (later.trans grows') coherent f.index, Option.bind_some, found]
            rfl

/-- A file tells what its declarations tell, in their order. -/
theorem scanFile (reports : Reports badges text s t) (file : SourceFile) :
    (scanFile file).Runs t (fun _ u => Reports badges
      (fun ix => text ix ++ file.declarations.flatMap (declarationEvents ix)) s u)
      (Stopped badges) := by
  unfold SourceScan.scanFile SourceFile.declarations
  cases file.result with
  | error e =>
      simp only [List.flatMap_nil, List.append_nil]
      exact .alter (reports.alter (reports.underway.record (.refl _) _) rfl)
  | ok declarations =>
      refine .alter_bind ?_
      refine Runs.bind (.forM (fun done u => Reports badges
        (fun ix => text ix ++ done.flatMap (declarationEvents ix)) s u) declarations ?_ ?_) ?_
      · simp only [List.flatMap_nil, List.append_nil]
        exact reports.alter (reports.underway.keeps (.say _ _ _)) rfl
      · intro done d u reports
        simp only [List.flatMap_append, List.flatMap_singleton, ← List.append_assoc]
        exact reports.applyDeclaration d
      · intro _ u reports
        exact .alter (reports.alter (reports.underway.alter (.of_alike ⟨rfl, rfl⟩) rfl rfl) rfl)

end Reports

/-- The source scan tells its story, file by file, and ends with the end of the scan. -/
theorem run_reports (underway : Underway badges [] s) (files : List SourceFile) :
    (run files).Runs s
      (fun _ t => Reports badges (fun ix => Analysis.sourceStory ix files) s t)
      (Stopped badges) := by
  unfold run Analysis.sourceStory
  refine .alter_bind ?_
  refine Runs.bind (.forM (fun done t => Reports badges
    (fun ix => (done.flatMap SourceFile.declarations).flatMap (declarationEvents ix)) s t) files
    ((Reports.start underway).alter (underway.keeps (.say _ _ _)) rfl) ?_) ?_
  · intro done file t reports
    simp only [List.flatMap_append, List.flatMap_singleton]
    exact reports.scanFile file
  · intro _ t reports
    refine (reports.underway.tell (by rintro visit ⟨⟩)).bind ?_
    rintro - u ⟨heard, proceeds⟩
    have closed : Reports badges (fun ix =>
        (files.flatMap SourceFile.declarations).flatMap (declarationEvents ix) ++
          [.endScan .source]) s u :=
      reports.extend (reports.underway.heard heard) proceeds.advances.grows proceeds.told
        fun _ _ => rfl
    exact .alter (closed.alter (closed.underway.keeps (.say _ _ _)) rfl)

end SourceScan

/-! ## The members of a class -/

namespace BytecodeScan

variable {badges : List Badge} {text text' : Index → List Event} {full full' : List Event}
  {seen : List (String × UInt32)} {sites sites' : List (Handle × UInt32)} {s t u : Session σ}

/-- From `s` to `t` visitors were told what the text says under any index that is foreseen, less the
references at a place that was met before. -/
structure Narrates (badges : List Badge) (text : Index → List Event)
    (seen : List (String × UInt32)) (full : List Event) (s t : Session σ)
    (sites : List (Handle × UInt32)) : Prop where
  foreseen : ∀ {ix : Index}, t.findings.Foresees ix → text ix = full
  proceeds : Proceeds badges (Event.withoutRepeats seen full) s t
  sites : Sites t.findings.index (full.filterMap Event.place? ++ seen) sites

namespace Narrates

/-- What is narrated twice in a row is narrated as a whole.  Of the second part, references at
places of the first are left out. -/
theorem trans (first : Narrates badges text seen full s t sites)
    (second : Narrates badges text' (full.filterMap Event.place? ++ seen) full' t u sites') :
    Narrates badges (fun ix => text ix ++ text' ix) seen (full ++ full') s u sites' where
  foreseen foresees := by
    rw [first.foreseen (foresees.advances second.proceeds.advances), second.foreseen foresees]
  proceeds := by
    rw [Event.withoutRepeats_append]
    exact first.proceeds.trans second.proceeds
  sites := by
    refine second.sites.congr fun place => ?_
    simp only [List.filterMap_append, List.mem_append, ← or_assoc]
    rw [or_comm (a := place ∈ full'.filterMap Event.place?)]

/-- The text can be said in other words. -/
theorem congr (narrates : Narrates badges text seen full s t sites)
    (same : ∀ {ix : Index}, t.findings.Foresees ix → text' ix = text ix) :
    Narrates badges text' seen full s t sites :=
  ⟨fun foresees => (same foresees).trans (narrates.foreseen foresees), narrates.proceeds,
    narrates.sites⟩

/-- Nothing is told. -/
theorem silent (same : Sites s.findings.index seen sites) (coherent : t.findings.index.Coherent)
    (proceeds : Proceeds badges [] s t) : Narrates badges (fun _ => []) seen [] s t sites :=
  ⟨fun _ => rfl, proceeds, same.grows proceeds.advances.grows coherent⟩

/-- Visitors are told of an event that is not a reference. -/
theorem event {e : Event} (plain : e.place? = none) (same : Sites s.findings.index seen sites)
    (coherent : t.findings.index.Coherent) (proceeds : Proceeds badges [e] s t) :
    Narrates badges (fun _ => [e]) seen [e] s t sites := by
  refine ⟨fun _ => rfl, ?_, ?_⟩
  · rw [Event.withoutRepeats, plain]
    exact proceeds
  · rw [List.filterMap_cons_none plain]
    exact same.grows proceeds.advances.grows coherent

/-- The findings are changed afterwards. -/
theorem alter (narrates : Narrates badges text seen full s t sites) {f : Findings}
    (advances : t.findings.Advances f) (coherent : f.index.Coherent) :
    Narrates badges text seen full s { t with findings := f } sites where
  foreseen foresees := narrates.foreseen (foresees.advances advances)
  proceeds := narrates.proceeds.alter advances
  sites := narrates.sites.grows advances.grows coherent

end Narrates

variable {types : List Handle} {c : ClassFacts} {type method : Handle} {methodKey : String}

/-- A reference is told unless its place was taken before.  Visitors hear of it before its
dependency is counted. -/
theorem scanReference_narrates (opened : Opened badges types c type s)
    (named : s.findings.index.key? method = some methodKey)
    (same : Sites s.findings.index seen sites) (r : Reference) :
    (scanReference c type method methodKey sites r).Runs s
      (fun sites t => Opened badges types c type t ∧
        Narrates badges (fun _ => [referenceEvent c type methodKey r]) seen
          [referenceEvent c type methodKey r] s t sites)
      (Stopped badges) := by
  unfold scanReference
  split
  · next repeated =>
      -- not told, and its place is taken already
      have known := (same.mem_iff named).mp repeated
      refine .pure ⟨opened, fun _ => rfl, ?_, same.congr fun place => ?_⟩
      · have dropped : Event.withoutRepeats seen [referenceEvent c type methodKey r] = [] :=
          if_pos known
        rw [dropped]
        exact .refl badges s
      · refine List.mem_cons.trans (or_iff_right_of_imp fun this => ?_)
        rw [this]
        exact known
  · next fresh =>
      have new := fun known => fresh ((same.mem_iff named).mpr known)
      refine (opened.tell (by rintro visit ⟨⟩)).bind ?_
      rintro - t ⟨heard, proceeds⟩
      have told := opened.heard heard
      have within := Findings.addReference_within told.sound c r
      have referred := told.keeps (Findings.addReference_keeps told.sound c r)
      have proceeds' := proceeds.alter (.of_within told.sound within)
      refine .alter_bind (.pure ⟨referred, fun _ => rfl, ?_, ?_⟩)
      · have kept : Event.withoutRepeats seen [referenceEvent c type methodKey r] =
            [referenceEvent c type methodKey r] := if_neg new
        rw [kept]
        exact proceeds'
      · have grows := proceeds'.advances.grows
        have coherent := referred.sound.index.toCoherent
        exact (same.grows grows coherent).cons coherent (grows.key_kept named) r.site

/-- The references of a body are told in their order, the first one at each place. -/
theorem scanBody_narrates (opened : Opened badges types c type s)
    (named : s.findings.index.key? method = some methodKey)
    (same : Sites s.findings.index seen sites) (body : List Reference) :
    (body.foldlM (scanReference c type method methodKey) sites).Runs s
      (fun sites t => Opened badges types c type t ∧
        Narrates badges (fun _ => body.map (referenceEvent c type methodKey)) seen
          (body.map (referenceEvent c type methodKey)) s t sites)
      (Stopped badges) := by
  refine .foldlM (fun done sites t => Opened badges types c type t ∧
    Narrates badges (fun _ => done.map (referenceEvent c type methodKey)) seen
      (done.map (referenceEvent c type methodKey)) s t sites) body ?_ ?_
  · exact ⟨opened, .silent same opened.sound.index.toCoherent (.refl badges s)⟩
  · rintro done r sites t ⟨opened, narrates⟩
    have named' := narrates.proceeds.advances.grows.key_kept named
    refine (scanReference_narrates opened named' narrates.sites r).mono ?_ fun _ _ stopped => stopped
    rintro sites' u ⟨opened, narrates'⟩
    rw [List.map_append]
    exact ⟨opened, narrates.trans narrates'⟩

/-- A method is told with its references if it is registered.  If it is refused, none of them is
told. -/
theorem scanMethod_narrates (opened : Opened badges types c type s)
    (same : Sites s.findings.index seen sites) (m : Method) :
    (scanMethod c type sites m).Runs s
      (fun sites t => Opened badges types c type t ∧
        ∃ full, Narrates badges (fun ix => memberEvents ix c type m) seen full s t sites)
      (Stopped badges) := by
  have sound := opened.sound
  have within := Findings.declareFact_within sound .bytecode (c.methodKey m) (.inr rfl) (some c.key)
  have advances := Findings.Advances.of_within sound within
  have declared := opened.keeps
    (Findings.declareMember_keeps sound (c.methodKey m) (.inr rfl) (some c.key))
  have settled {ix : Index} (later : (s.findings.declareFact .bytecode (c.methodKey m) .method
      (some c.key)).2.index.Grows ix) :=
    Findings.registered?_of_declareFact sound (by decide) later
  unfold scanMethod
  refine .edit_bind ?_
  generalize s.findings.declareFact .bytecode (c.methodKey m) .method (some c.key) = result at *
  obtain ⟨answer, f⟩ := result
  have coherent := declared.sound.index.toCoherent
  have proceeds : Proceeds badges [] s { s with findings := f } := .alter (.refl badges s) advances
  have silent := Narrates.silent same coherent proceeds
  cases answer with
  | none =>
      refine .pure ⟨declared, [], silent.congr fun foresees => ?_⟩
      rw [memberEvents, settled foresees.grows foresees.coherent]
  | some method =>
      have named := ((Index.registered?_eq_some_iff coherent).mp (settled (.refl _) coherent)).1
      refine (declared.tell (by rintro visit ⟨⟩)).bind ?_
      rintro - t ⟨heard, proceeds'⟩
      have told := declared.heard heard
      have first := Narrates.event rfl silent.sites told.sound.index.toCoherent proceeds'
      refine (scanBody_narrates told (proceeds'.advances.grows.key_kept named) first.sites
        m.body).mono ?_ fun _ _ stopped => stopped
      rintro sites' u ⟨opened, body⟩
      refine ⟨opened, _, ((silent.trans first).trans body).congr fun foresees => ?_⟩
      have grows := (proceeds'.trans body.proceeds).advances.grows
      rw [memberEvents, settled (grows.trans foresees.grows) foresees.coherent]
      rfl

/-- The methods of a class are told one after the other, with the places of all earlier ones taken.
-/
theorem scanMethods_narrates (opened : Opened badges types c type s)
    (same : Sites s.findings.index seen sites) (methods : List Method) :
    (methods.foldlM (scanMethod c type) sites).Runs s
      (fun sites t => Opened badges types c type t ∧ ∃ full,
        Narrates badges (fun ix => methods.flatMap (memberEvents ix c type)) seen full s t sites)
      (Stopped badges) := by
  refine .foldlM (fun done sites t => Opened badges types c type t ∧ ∃ full,
    Narrates badges (fun ix => done.flatMap (memberEvents ix c type)) seen full s t sites)
    methods ?_ ?_
  · exact ⟨opened, [], .silent same opened.sound.index.toCoherent (.refl badges s)⟩
  · rintro done m sites t ⟨opened, full, narrates⟩
    refine (scanMethod_narrates opened narrates.sites m).mono ?_ fun _ _ stopped => stopped
    rintro sites' u ⟨opened, full', narrates'⟩
    refine ⟨opened, full ++ full', (narrates.trans narrates').congr fun _ => ?_⟩
    rw [List.flatMap_append, List.flatMap_singleton]

/-- A class that is new tells its story: its type when it is entered, its methods with their
references, and its type again when it is left. -/
theorem scanMembers_narrates {f : Findings} (underway : Underway badges types s)
    (resolved : s.findings.resolveType c.key = (.ok type, f)) (new : type ∉ types)
    (same : Sites s.findings.index seen sites) :
    (scanMembers c type sites).Runs { s with findings := f }
      (fun sites t => Opened badges types c type t ∧
        ∃ full, Narrates badges (fun ix => classEvents ix c) seen full s t sites)
      (Stopped badges) := by
  have opened := Opened.enter underway resolved new
  have isType := Findings.isType_of_resolveType underway.sound resolved
  have advances := Findings.Advances.resolveType underway.sound c.key
  have sound := (s.findings.resolveType_tacit c.key).evolves.sound underway.sound
  rw [resolved] at advances sound
  have within := Findings.Advances.of_within sound (Findings.openClass_within sound isType)
  have proceeds : Proceeds badges [] s { s with findings := f.openClass c type } :=
    .alter (.refl badges s) (advances.trans within)
  have silent := Narrates.silent same opened.sound.index.toCoherent proceeds
  unfold scanMembers
  refine .alter_bind ((opened.tell (by rintro visit ⟨⟩)).bind ?_)
  rintro - t ⟨heard, proceeds⟩
  have entered := opened.heard heard
  have first := Narrates.event rfl silent.sites entered.sound.index.toCoherent proceeds
  refine (scanMethods_narrates entered first.sites c.methods).bind ?_
  rintro sites' u ⟨opened, full, members⟩
  refine (opened.tell ?_).bind ?_
  · rintro visit ⟨⟩
    exact .of_key? opened.isType.1
  rintro - v ⟨heard, proceeds⟩
  have left := opened.heard heard
  have last := Narrates.event rfl members.sites left.sound.index.toCoherent proceeds
  -- opening is silent; then come the type, the methods and the end of the class
  have whole := (silent.trans first).trans (members.trans last)
  refine .pure ⟨left, _, whole.congr fun foresees => ?_⟩
  have type := left.isType.grows foresees.grows
  rw [classEvents, (Index.registered?_eq_some_iff foresees.coherent).mpr type]
  rfl

end BytecodeScan

end CodeMetrics
