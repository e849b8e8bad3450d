import CodeMetrics.Proofs.Scan.Opening
import CodeMetrics.Proofs.Scan.Running

/-!
# Scanning the members of a class

While a class is open, three things keep in step with the mentions that were made so far: the deeds
that the findings track, what the two visitors remember, and the sites that count as used.
`ClassEntry.Midway` is the invariant of the two loops, over methods and over the references of one
method.  What it says about visitors and sites is said for findings that are not disputed; once they
are, only their steadiness matters.

The sites of the scan are pairs of a handle and a number, those of the outline pairs of a key and a
number.  `BytecodeScan.Sites` says that they are the same under the keys of the index.
-/

namespace CodeMetrics

/-! ## Sites -/

namespace BytecodeScan

/-- The sites, by handles, are the places, by keys. -/
structure Sites (ix : Index) (places : List (String × UInt32)) (sites : List (Handle × UInt32)) :
    Prop where
  place_known : ∀ {key : String} {site : UInt32}, (key, site) ∈ places → ∃ h, ix.key? h = some key
  site_known : ∀ {h : Handle} {site : UInt32}, (h, site) ∈ sites → ix.Knows h
  mem_iff : ∀ {h : Handle} {key : String} {site : UInt32}, ix.key? h = some key →
    ((h, site) ∈ sites ↔ (key, site) ∈ places)

namespace Sites

variable {ix ix' : Index} {places places' : List (String × UInt32)} {sites : List (Handle × UInt32)}

theorem empty (ix : Index) : Sites ix [] [] where
  place_known impossible := by cases impossible
  site_known impossible := by cases impossible
  mem_iff _ := iff_of_false List.not_mem_nil List.not_mem_nil

/-- Places stay the same while the index grows, since handles keep their keys. -/
theorem grows (same : Sites ix places sites) (grows : ix.Grows ix') (coherent : ix'.Coherent) :
    Sites ix' places sites where
  place_known listed := by
    obtain ⟨h, named⟩ := same.place_known listed
    exact ⟨h, grows.key_kept named⟩
  site_known listed := grows.knows (same.site_known listed)
  mem_iff {h key site} named := by
    by_cases known : ix.Knows h
    · obtain ⟨before, namedBefore⟩ := Index.knows_iff_key?.mp known
      have kept := grows.key_kept namedBefore
      rw [named, Option.some.injEq] at kept
      subst kept
      exact same.mem_iff namedBefore
    · refine iff_of_false (fun listed => known (same.site_known listed)) fun listed => known ?_
      obtain ⟨g, namedBefore⟩ := same.place_known listed
      rw [coherent.key?_injective named (grows.key_kept namedBefore)]
      exact .of_key? namedBefore

theorem congr (same : Sites ix places sites) (equal : ∀ place, place ∈ places' ↔ place ∈ places) :
    Sites ix places' sites where
  place_known listed := same.place_known ((equal _).mp listed)
  site_known := same.site_known
  mem_iff named := (same.mem_iff named).trans (equal _).symm

/-- One more place is taken, by the key of a method in the outline and by its handle in the scan. -/
theorem cons (same : Sites ix places sites) (coherent : ix.Coherent) {h : Handle} {key : String}
    (named : ix.key? h = some key) (site : UInt32) :
    Sites ix ((key, site) :: places) ((h, site) :: sites) where
  place_known listed := by
    rcases List.mem_cons.mp listed with first | listed
    · cases first
      exact ⟨h, named⟩
    · exact same.place_known listed
  site_known listed := by
    rcases List.mem_cons.mp listed with first | listed
    · cases first
      exact .of_key? named
    · exact same.site_known listed
  mem_iff {h' key' site'} named' := by
    have first_iff : h' = h ↔ key' = key := by
      constructor
      · rintro rfl
        rw [named, Option.some.injEq] at named'
        exact named'.symm
      · rintro rfl
        exact coherent.key?_injective named' named
    rw [List.mem_cons, List.mem_cons, Prod.mk.injEq, Prod.mk.injEq, first_iff, same.mem_iff named']

end Sites

end BytecodeScan

/-! ## A class under scan -/

/-- A class that is being scanned, with what was there when it was entered. -/
structure ClassEntry where
  facts : ClassFacts
  /-- The type of the class. -/
  type : Handle
  /-- The findings when the visitors were told of the class. -/
  start : Findings
  /-- The deeds until then. -/
  deeds : List Deed
  /-- The methods that the response set started with. -/
  methods : List String
  /-- The cohesion visitor, and the graph that it started with. -/
  cohesion : CohesionVisitor
  opened : OpenCohesion
  opened_type : opened.type = type

namespace ClassEntry

/-- What visitors, deeds and sites have in common after some mentions. -/
structure Midway {σ : Type} (x : ClassEntry) (project : String) (ms : List Mention)
    (places : List (String × UInt32)) (sites : List (Handle × UInt32)) (s : Session σ) : Prop where
  steady : s.findings.Steady
  type : s.findings.index.IsType x.type x.facts.key
  extension : x.start.Extends s.findings
  superclasses : s.findings.superclasses = x.start.superclasses
  own : Scanning.Private s
  tracks : s.findings.Tracks project (x.deeds ++ ms.flatMap (Mention.deeds x.facts.key))
  /-- The visitors remember the mentions. -/
  roster : ¬ s.findings.Disputed →
    s.roster = Scanning.own (.at x.type x.methods ms) (x.cohesion.at x.opened ms)
  sites : ¬ s.findings.Disputed → BytecodeScan.Sites s.findings.index places sites

namespace Midway

open Scanning BytecodeScan

variable {σ : Type} {x : ClassEntry} {project : String} {ms : List Mention}
  {places places' : List (String × UInt32)} {sites sites' : List (Handle × UInt32)} {s : Session σ}

theorem conflict (midway : x.Midway project ms places sites s) (disputed : s.findings.Disputed) :
    ¬ Consistent (x.deeds ++ ms.flatMap (Mention.deeds x.facts.key)) :=
  (midway.tracks.disputed_iff midway.steady).mp disputed

/-- Nothing more is said about findings that are disputed by now: the deeds are not consistent, and
what is added to them does not change this. -/
theorem of_disputed {t : Session σ} {ms' : List Mention}
    (midway : x.Midway project ms places sites s) (steady : t.findings.Steady)
    (extension : s.findings.Extends t.findings)
    (superclasses : t.findings.superclasses = s.findings.superclasses) (own : Private t)
    (disputed : t.findings.Disputed)
    (conflict : ¬ Consistent (x.deeds ++ ms'.flatMap (Mention.deeds x.facts.key)))
    (more : List Mention) : x.Midway project (ms' ++ more) places' sites' t where
  steady := steady
  type := midway.type.grows extension.grows
  extension := midway.extension.trans extension
  superclasses := superclasses.trans midway.superclasses
  own := own
  tracks := by
    refine .inl ⟨disputed, ?_⟩
    rw [List.flatMap_append, ← List.append_assoc]
    exact Findings.not_consistent_append _ _ conflict
  roster undisputed := absurd disputed undisputed
  sites undisputed := absurd disputed undisputed

theorem congr (midway : x.Midway project ms places sites s)
    (equal : ∀ place, place ∈ places' ↔ place ∈ places) : x.Midway project ms places' sites s :=
  { midway with sites := fun undisputed => (midway.sites undisputed).congr equal }

/-- A mention that the visitors were told of, and whose deeds were done, takes the scan and the
outline one step further. -/
theorem step {t : Session σ} {m : Mention} (midway : x.Midway project ms places sites s)
    (applies : s.findings.Applies project (m.deeds x.facts.key) t.findings)
    (superclasses : t.findings.superclasses = s.findings.superclasses) (own : Private t)
    (told : s.roster = Scanning.own (.at x.type x.methods ms) (x.cohesion.at x.opened ms) →
      t.roster =
        Scanning.own (.at x.type x.methods (ms ++ [m])) (x.cohesion.at x.opened (ms ++ [m])))
    (used : Sites s.findings.index places sites → Sites t.findings.index places' sites') :
    x.Midway project (ms ++ [m]) places' sites' t where
  steady := applies.steady
  type := midway.type.grows applies.grows
  extension := midway.extension.trans applies.toExtends
  superclasses := superclasses.trans midway.superclasses
  own := own
  tracks := by
    rw [List.flatMap_append, List.flatMap_singleton, ← List.append_assoc]
    exact applies.tracks midway.tracks
  roster undisputed := told (midway.roster fun disputed => undisputed (applies.disputed disputed))
  sites undisputed := used (midway.sites fun disputed => undisputed (applies.disputed disputed))

/-! ### One reference -/

/-- Visitors are told of an event of the class and remember it as a mention. -/
theorem tell (x : ClassEntry) (ms : List Mention) (e : Event) (m : Mention) (own : Private s)
    (phase : e.phase = .bytecode) (listening : e.kind ≠ .endScan) (staying : e.kind ≠ .leaveType)
    (response : ((ResponseVisitor.at x.type x.methods ms).react s.findings e).1 =
      .at x.type x.methods (ms ++ [m]))
    (cohesion : ((x.cohesion.at x.opened ms).react s.findings e).1 =
      x.cohesion.at x.opened (ms ++ [m])) :
    (dispatch e).Ends s fun _ t => t.findings = s.findings ∧ Private t ∧
      (s.roster = Scanning.own (.at x.type x.methods ms) (x.cohesion.at x.opened ms) →
        t.roster = Scanning.own (.at x.type x.methods (ms ++ [m]))
          (x.cohesion.at x.opened (ms ++ [m]))) := by
  obtain ⟨rv, cv, roster, excluded⟩ := own
  refine (dispatch_listening roster phase listening staying).mono ?_
  rintro - t ⟨findings, roster'⟩
  refine ⟨findings, ⟨_, _, roster', ?_⟩, fun expected => ?_⟩
  · rw [excluded_react, findings, excluded]
  · obtain ⟨rfl, rfl⟩ := own_injective (roster.symm.trans expected)
    rw [roster', response, cohesion]

/-- A reference is applied unless its site was used, as the outline has it.  The outline tells
places apart by the key of the method, the scan by its handle; these agree, since a key has one
handle. -/
theorem scanReference (midway : x.Midway project ms places sites s) {method : Handle} {key : String}
    (named : s.findings.index.key? method = some key) (r : Reference) :
    (BytecodeScan.scanReference x.facts x.type method key sites r).Ends s fun sites' t =>
      x.Midway project
          (ms ++ (firstBy Use.place places [⟨x.facts.key, key, r⟩]).map .reference)
          ((key, r.site) :: places) sites' t ∧
        t.findings.index.key? method = some key := by
  have used_iff (undisputed : ¬ s.findings.Disputed) :
      (method, r.site) ∈ sites ↔ (key, r.site) ∈ places :=
    (midway.sites undisputed).mem_iff named
  unfold BytecodeScan.scanReference
  by_cases used : (method, r.site) ∈ sites
  · -- a site that was used is skipped, and the outline leaves the reference out
    rw [if_pos used]
    refine .pure ⟨?_, named⟩
    by_cases disputed : s.findings.Disputed
    · exact midway.of_disputed midway.steady (.refl _) rfl midway.own disputed
        (midway.conflict disputed) _
    · have known := (used_iff disputed).mp used
      have left_out : firstBy Use.place places [⟨x.facts.key, key, r⟩] = [] := by
        rw [firstBy]
        exact if_pos known
      rw [left_out, List.map_nil, List.append_nil]
      refine midway.congr fun place => ?_
      rw [List.mem_cons, or_iff_right_of_imp]
      rintro rfl
      exact known
  · rw [if_neg used]
    have told := tell x ms
      (.reference { element := x.type, typeKey := x.facts.key, methodKey := key, reference := r })
      (.reference ⟨x.facts.key, key, r⟩) midway.own rfl
      (show EventKind.reference ≠ .endScan by decide)
      (show EventKind.reference ≠ .leaveType by decide)
      (response_react_reference _ _ _ _ rfl)
      (cohesion_react_reference _ _ x.opened_type.symm)
    refine told.bind ?_
    rintro - t ⟨findings, own, remembered⟩
    refine .alter_bind ?_
    have applies : s.findings.Applies project
        (Mention.deeds x.facts.key (.reference ⟨x.facts.key, key, r⟩))
        (t.findings.addReference x.facts r) := by
      rw [findings, Findings.addReference_eq]
      exact Findings.depend_applies midway.steady midway.type r.owner r.edgeKind
    have superclasses : (t.findings.addReference x.facts r).superclasses =
        s.findings.superclasses := by
      rw [Findings.addReference_eq, Findings.superclasses_depend, findings]
    have config : (t.findings.addReference x.facts r).config = t.findings.config := by
      rw [applies.config, findings]
    have own' : Private { t with findings := t.findings.addReference x.facts r } := own.alter config
    refine .pure ⟨?_, applies.grows.key_kept named⟩
    by_cases disputed : s.findings.Disputed
    · exact midway.of_disputed applies.steady applies.toExtends superclasses own'
        (applies.disputed disputed) (midway.conflict disputed) _
    · have new : (key, r.site) ∉ places := fun known => used ((used_iff disputed).mpr known)
      have kept : firstBy Use.place places [⟨x.facts.key, key, r⟩] = [⟨x.facts.key, key, r⟩] := by
        rw [firstBy]
        exact if_neg new
      rw [kept]
      refine midway.step applies superclasses own' remembered fun same => ?_
      exact (same.grows applies.grows applies.steady.index.toCoherent).cons
        applies.steady.index.toCoherent (applies.grows.key_kept named) r.site

/-! ### One method -/

/-- The references of a body are applied in order.  All of them are references of one method, so the
first one at each site is what counts. -/
theorem scanBody (midway : x.Midway project ms places sites s) {m : Method} {method : Handle}
    (named : s.findings.index.key? method = some (x.facts.methodKey m)) :
    (m.body.foldlM (BytecodeScan.scanReference x.facts x.type method (x.facts.methodKey m))
        sites).Ends s fun sites' t =>
      x.Midway project (ms ++ (firstBy Use.place places (x.facts.usesOf m)).map .reference)
        ((x.facts.usesOf m).map Use.place ++ places) sites' t := by
  -- what the loop has read of the body, as references of the method
  let read (done : List Reference) : List Use :=
    done.map fun r => ⟨x.facts.key, x.facts.methodKey m, r⟩
  let invariant (done : List Reference) (sites : List (Handle × UInt32)) (t : Session σ) : Prop :=
    x.Midway project (ms ++ (firstBy Use.place places (read done)).map .reference)
        ((read done).map Use.place ++ places) sites t ∧
      t.findings.index.key? method = some (x.facts.methodKey m)
  have round (done : List Reference) (r : Reference) (sites : List (Handle × UInt32))
      (t : Session σ) (holds : invariant done sites t) :
      (BytecodeScan.scanReference x.facts x.type method (x.facts.methodKey m) sites r).Ends t
        (invariant (done ++ [r])) := by
    refine (holds.1.scanReference holds.2 r).mono ?_
    rintro sites' u ⟨after, named⟩
    refine ⟨?_, named⟩
    have more : read (done ++ [r]) = read done ++ [⟨x.facts.key, x.facts.methodKey m, r⟩] :=
      List.map_append
    rw [more, firstBy_append, List.map_append, ← List.append_assoc]
    refine after.congr fun place => ?_
    simp only [List.map_append, List.map_cons, List.map_nil, List.mem_append, List.mem_cons,
      List.not_mem_nil, or_false, Use.place]
    rw [or_right_comm, or_comm]
  have start : invariant [] sites s := by
    refine ⟨?_, named⟩
    have unread : firstBy Use.place places (read []) = [] := rfl
    rw [unread, List.map_nil, List.append_nil]
    exact midway
  exact (Ends.foldlM m.body start round).mono fun _ _ holds => holds.1

/-- A method is registered, visitors are told of it, and its body is scanned.  If it is refused
there is a dispute, and the outline has a conflict among its deeds. -/
theorem scanMethod (midway : x.Midway project ms places sites s) (m : Method) :
    (BytecodeScan.scanMethod x.facts x.type sites m).Ends s fun sites' t =>
      x.Midway project (ms ++ x.facts.mentionsOf places m)
        ((x.facts.usesOf m).map Use.place ++ places) sites' t := by
  generalize registered :
    s.findings.declareFact .bytecode (x.facts.methodKey m) .method (some x.facts.key) = result
  obtain ⟨answer, f⟩ := result
  have applies : s.findings.Applies project
      (Mention.deeds x.facts.key (.method (x.facts.methodKey m))) f := by
    have declared : s.findings.Applies project
        [.declare ⟨.method, x.facts.methodKey m, some x.facts.key⟩] _ :=
      Findings.declareFact_applies_of_isType midway.steady midway.type (by decide)
    rw [registered] at declared
    exact declared
  have superclasses : f.superclasses = s.findings.superclasses := by
    have kept := s.findings.superclasses_declareFact .bytecode (x.facts.methodKey m) .method
      (some x.facts.key)
    rw [registered] at kept
    exact kept
  have own : Private { s with findings := f } := midway.own.alter applies.config
  have mentioned : ms ++ x.facts.mentionsOf places m =
      (ms ++ [.method (x.facts.methodKey m)]) ++
        (firstBy Use.place places (x.facts.usesOf m)).map .reference :=
    List.append_cons ..
  unfold BytecodeScan.scanMethod
  refine .edit_bind ?_
  rw [registered, mentioned]
  cases answer with
  | none =>
      -- refused: the outline mentions the method nevertheless, but its deeds are in conflict
      have disputed : f.Disputed := by
        have refused : (s.findings.declareFact .bytecode (x.facts.methodKey m) .method
            (some x.facts.key)).2.Disputed := Findings.declareFact_eq_none (by rw [registered])
        rw [registered] at refused
        exact refused
      have conflict := ((applies.tracks midway.tracks).disputed_iff applies.steady).mp disputed
      rw [List.append_assoc, ← List.flatMap_singleton (Mention.deeds x.facts.key),
        ← List.flatMap_append] at conflict
      exact .pure (midway.of_disputed applies.steady applies.toExtends superclasses own disputed
        conflict _)
  | some method =>
      -- accepted: the visitors are told of it, and its body follows
      have named : f.index.key? method = some (x.facts.methodKey m) := by
        have accepted : (s.findings.declareFact .bytecode (x.facts.methodKey m) .method
            (some x.facts.key)).2.index.key? method = some (x.facts.methodKey m) :=
          Findings.declareFact_eq_some midway.steady (.of_key? midway.type.1) (by rw [registered])
        rw [registered] at accepted
        exact accepted
      have told := tell x ms
        (.method
          { phase := .bytecode, element := method, key := x.facts.methodKey m,
            owner := some x.type, signature := m.signature })
        (.method (x.facts.methodKey m)) own rfl
        (show EventKind.method ≠ .endScan by decide)
        (show EventKind.method ≠ .leaveType by decide)
        (response_react_method _ _ _ _ rfl rfl)
        (cohesion_react_method _ _ rfl (congrArg some x.opened_type.symm))
      refine told.bind ?_
      rintro - t ⟨rfl, own', remembered⟩
      have after : x.Midway project (ms ++ [.method (x.facts.methodKey m)]) places sites t :=
        midway.step applies superclasses own' remembered
          fun same => same.grows applies.grows applies.steady.index.toCoherent
      exact after.scanBody named

/-! ### All methods -/

/-- The methods of a class are scanned in order.  At the end the scan has mentioned all that the
outline mentions of the class, and has taken the same places. -/
theorem scanMethods {seen : List (String × UInt32)} (midway : x.Midway project [] seen sites s) :
    (x.facts.methods.foldlM (BytecodeScan.scanMethod x.facts x.type) sites).Ends s fun sites' t =>
      x.Midway project (x.facts.mentions seen) (x.facts.uses.map Use.place ++ seen) sites' t := by
  let invariant (done : List Method) (sites : List (Handle × UInt32)) (t : Session σ) : Prop :=
    x.Midway project (x.facts.mentionsIn seen done)
      ((done.flatMap x.facts.usesOf).map Use.place ++ seen) sites t
  have round (done : List Method) (m : Method) (sites : List (Handle × UInt32)) (t : Session σ)
      (holds : invariant done sites t) :
      (BytecodeScan.scanMethod x.facts x.type sites m).Ends t (invariant (done ++ [m])) := by
    refine (holds.scanMethod m).mono fun sites' u after => ?_
    have places_iff : ∀ place,
        place ∈ ((done ++ [m]).flatMap x.facts.usesOf).map Use.place ++ seen ↔
          place ∈ (x.facts.usesOf m).map Use.place ++
            ((done.flatMap x.facts.usesOf).map Use.place ++ seen) := by
      intro place
      simp only [List.flatMap_append, List.flatMap_singleton, List.map_append, List.mem_append]
      exact or_assoc.trans or_left_comm
    have after' := after.congr places_iff
    rw [← ClassFacts.mentionsIn_concat] at after'
    exact after'
  exact Ends.foldlM x.facts.methods midway round

end Midway

end ClassEntry

end CodeMetrics
