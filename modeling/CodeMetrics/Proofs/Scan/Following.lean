import CodeMetrics.Proofs.Scan.Agreement
import CodeMetrics.Proofs.Scan.Operations

/-!
# A bytecode scan follows its outline

The scan of the artifacts and the outline of it make the same steps: the classes that the scan
accepts are the ones that the outline accepts, and the findings track the deeds of the outline.
`Following` relates a session to an outline; a class, an artifact and the whole scan keep it.  Once
the findings are disputed it says no more than that the deeds are not consistent.
-/

namespace CodeMetrics

namespace BytecodeScan

open Scanning

variable {σ : Type} {project : String} {start : Findings} {o o' : Outline} {progress : Progress}
  {s t : Session σ} {c : ClassFacts} {type : Handle}

/-- A session that has made the steps of an outline since the start of the scan. -/
structure Following (project : String) (start : Findings) (o : Outline) (progress : Progress)
    (s : Session σ) : Prop where
  steady : s.findings.Steady
  own : Private s
  config : s.findings.config = start.config
  tracks : s.findings.Tracks project o.deeds
  followed : ¬ s.findings.Disputed → Followed start o progress s.findings

namespace Following

theorem conflict (following : Following project start o progress s)
    (disputed : s.findings.Disputed) : ¬ Consistent o.deeds :=
  (following.tracks.disputed_iff following.steady).mp disputed

/-- Nothing more is said about disputed findings. -/
theorem of_disputed (steady : t.findings.Steady) (own : Private t)
    (config : t.findings.config = start.config) (disputed : t.findings.Disputed)
    (conflict : ¬ Consistent o.deeds) : Following project start o progress t where
  steady := steady
  own := own
  config := config
  tracks := .inl ⟨disputed, conflict⟩
  followed undisputed := absurd disputed undisputed

/-- All outlines whose deeds are not consistent are alike. -/
theorem of_conflict {progress' : Progress} (following : Following project start o progress s)
    (conflict : ¬ Consistent o.deeds) (conflict' : ¬ Consistent o'.deeds) :
    Following project start o' progress' s :=
  of_disputed following.steady following.own following.config
    ((following.tracks.disputed_iff following.steady).mpr conflict) conflict'

/-! ## One class -/

/-- A class that visitors have just been told of. -/
def entry (f : Findings) (o : Outline) (c : ClassFacts) (type : Handle)
    (cohesion : CohesionVisitor) : ClassEntry where
  facts := c
  type := type
  start := f.openClass c type
  deeds := o.deeds ++ c.opening
  methods := (((f.openClass c type).index.members c.key .method).map Element.key).eraseDups
  cohesion := cohesion
  opened := cohesion.enter (typeVisit c type)
  opened_type := rfl

/-- A class is opened, and visitors are told of it.  From here on the scan and the outline go
through the methods of the class in step. -/
theorem enter (following : Following project start o progress s)
    (is : s.findings.index.IsType type c.key) :
    (dispatch (.type (typeVisit c type))).Ends
        { s with findings := s.findings.openClass c type } fun _ t =>
      ∃ cohesion, cohesion.excludes = start.config.excludes ∧
        (entry s.findings o c type cohesion).Midway project [] o.seen progress.sites t := by
  have opened : s.findings.Applies project c.opening (s.findings.openClass c type) :=
    Findings.openClass_applies following.steady is
  obtain ⟨rv, cv, roster, excluded⟩ := following.own.alter opened.config
  refine Ends.mono (dispatch_listening roster rfl (show EventKind.type ≠ .endScan by decide)
    (show EventKind.type ≠ .leaveType by decide)) ?_
  rintro - t ⟨findings, roster'⟩
  rw [response_react_type _ rfl, cohesion_react_type _ rfl] at roster'
  refine ⟨cv, ?_, ?_⟩
  · funext name
    rw [CohesionVisitor.excludes, excluded, opened.config, following.config, Config.excludes]
  · exact
      { steady := findings ▸ opened.steady
        type := findings ▸ is.grows opened.grows
        extension := findings ▸ .refl _
        superclasses := by rw [findings]; rfl
        own := ⟨_, _, roster', by rw [findings]; exact excluded⟩
        tracks := by
          rw [findings, List.flatMap_nil, List.append_nil]
          exact opened.tracks following.tracks
        roster := fun _ => roster'
        sites := by
          rw [findings]
          intro undisputed
          have before := following.followed fun disputed => undisputed (opened.disputed disputed)
          exact before.sites.grows opened.grows opened.steady.index.toCoherent }

/-- A class is left, and what the visitors have found is attached.  The outline has the same
mentions of the class, so response set and components are those of the outline. -/
theorem leave {cohesion : CohesionVisitor} {sites : List (Handle × UInt32)}
    (following : Following project start o progress s)
    (is : s.findings.index.IsType type c.key)
    (new : ¬ s.findings.Disputed → c.key ∉ o.accepted.map ClassFacts.key)
    (excluded : cohesion.excludes = start.config.excludes)
    (midway : (entry s.findings o c type cohesion).Midway project (c.mentions o.seen)
      (c.uses.map Use.place ++ o.seen) sites t) :
    (dispatch (.leaveType (typeVisit c type))).Ends t fun _ u =>
      Following project start
        { o with accepted := o.accepted ++ [c], deeds := o.deeds ++ c.deeds o.seen }
        ⟨sites, type :: progress.types⟩ u := by
  have opened : s.findings.Applies project c.opening (s.findings.openClass c type) :=
    Findings.openClass_applies following.steady is
  have deeds_eq : (o.deeds ++ c.opening) ++ (c.mentions o.seen).flatMap (Mention.deeds c.key) =
      o.deeds ++ c.deeds o.seen := List.append_assoc ..
  have known : t.findings.index.Knows type := .of_key? midway.type.1
  have config : t.findings.config = start.config :=
    (midway.extension.config.trans opened.config).trans following.config
  obtain ⟨rv, cv, roster, same⟩ := midway.own
  have left := @dispatch_leave _ _ _ _ (typeVisit c type) roster rfl known
  have own {u : Session σ} (remeasures : t.findings.Remeasures u.findings)
      (ready : ∃ response' cohesion', u.roster = Scanning.own response' cohesion' ∧
        cohesion'.excluded = cv.excluded) : Private u := by
    obtain ⟨rv', cv', roster', same'⟩ := ready
    exact ⟨rv', cv', roster', by rw [same', same, remeasures.config]⟩
  -- what the visitors remember is known of undisputed findings only
  by_cases disputed : t.findings.Disputed
  · refine left.mono ?_
    rintro - u ⟨remeasures, ready⟩
    refine of_disputed (remeasures.steady midway.steady) (own remeasures ready)
      (remeasures.config.trans config) ?_ (deeds_eq ▸ midway.conflict disputed)
    rw [Findings.Disputed, remeasures.report]
    exact disputed
  · have undisputed : ¬ (s.findings.openClass c type).Disputed :=
      fun earlier => disputed (midway.extension.disputed earlier)
    have undisputedBefore : ¬ s.findings.Disputed :=
      fun earlier => undisputed (opened.disputed earlier)
    have reflects := (opened.tracks following.tracks).reflects undisputed
    refine (left.and (dispatch_leave_at (midway.roster disputed) rfl known rfl rfl)).mono ?_
    rintro - u ⟨⟨remeasures, ready⟩, measures⟩
    refine ⟨remeasures.steady midway.steady, own remeasures ready, remeasures.config.trans config,
      deeds_eq ▸ remeasures.tracks midway.tracks, fun _ => ?_⟩
    refine (following.followed undisputedBefore).add following.steady is (new undisputedBefore)
      opened.toExtends opened.steady midway.extension midway.steady disputed midway.superclasses
      remeasures (midway.sites disputed)
      ⟨(entry s.findings o c type cohesion).methods, o.seen, nodup_eraseDups _, ?_, ?_, ?_⟩ ?_
    · intro key listed
      have declared := reflects.declared_of_mem_members opened.steady (List.mem_eraseDups.mp listed)
      refine List.map_subset _ ?_ declared
      rw [ClassFacts.deeds, ← List.append_assoc]
      exact List.subset_append_left _ _
    · intro place listed
      rw [Outline.seen, List.map_flatMap, List.mem_flatMap] at listed
      obtain ⟨c', member, listed⟩ := listed
      refine ⟨c', List.mem_append_left _ member, fun same => new undisputedBefore ?_, listed⟩
      exact same ▸ List.mem_map_of_mem member
    · rw [← excluded]
      exact (measures type).trans (if_pos rfl)
    · intro h other
      exact (measures h).trans (if_neg other)

/-- A class whose type is new is opened, scanned and left.  Then it is accepted in the outline, with
its deeds done. -/
theorem scanMembers (following : Following project start o progress s)
    (is : s.findings.index.IsType type c.key)
    (new : ¬ s.findings.Disputed → c.key ∉ o.accepted.map ClassFacts.key) :
    (BytecodeScan.scanMembers c type progress.sites).Ends s fun sites t =>
      Following project start
        { o with accepted := o.accepted ++ [c], deeds := o.deeds ++ c.deeds o.seen }
        ⟨sites, type :: progress.types⟩ t := by
  unfold BytecodeScan.scanMembers
  refine .alter_bind ?_
  refine (following.enter is).bind ?_
  rintro - t ⟨cohesion, excluded, midway⟩
  refine midway.scanMethods.bind fun sites u after => ?_
  refine (following.leave is new excluded after).bind ?_
  rintro - v followed
  exact .pure followed

/-- A known class is placed by no deeds. -/
theorem placing_eq_nil (following : Following project start o progress s)
    (undisputed : ¬ s.findings.Disputed) (listed : c.key ∈ o.accepted.map ClassFacts.key) :
    o.placing project c.key = [] := by
  obtain ⟨c', member, same⟩ := List.mem_map.mp listed
  obtain ⟨h, type⟩ := (following.followed undisputed).enlisted.typed member
  rw [same] at type
  have reflects := following.tracks.reflects undisputed
  rw [Outline.placing, if_pos (reflects.knowsType_iff.mpr ⟨h, type⟩)]

/-- An issue that is no dispute is noted by both.  It belongs to the notices, which are compared one
by one. -/
theorem record (following : Following project start o progress s) {i : Issue}
    (notice : i.isDispute = false) :
    Following project start { o with notices := o.notices ++ [i] } progress
      { s with findings := s.findings.record i } := by
  have pushed :
      (s.findings.record i).report.issues.toList = s.findings.report.issues.toList ++ [i] :=
    Array.toList_push
  have disputed_iff : (s.findings.record i).Disputed ↔ s.findings.Disputed := by
    unfold Findings.Disputed
    rw [pushed]
    constructor
    · rintro ⟨i', listed, dispute⟩
      rcases List.mem_append.mp listed with old | last
      · exact ⟨i', old, dispute⟩
      · rw [List.mem_singleton.mp last, notice] at dispute
        cases dispute
    · rintro ⟨i', listed, dispute⟩
      exact ⟨i', List.mem_append_left _ listed, dispute⟩
  refine ⟨⟨following.steady.index, following.steady.graph, following.steady.founded⟩,
    following.own.alter rfl, following.config, ?_, fun undisputed => ?_⟩
  · rcases following.tracks with ⟨disputed, conflict⟩ | ⟨undisputed, reflects⟩
    · exact .inl ⟨disputed_iff.mpr disputed, conflict⟩
    · exact .inr ⟨mt disputed_iff.mp undisputed, reflects.records, reflects.edges, reflects.project⟩
  · exact (following.followed (mt disputed_iff.mpr undisputed)).record i

theorem scanClass_conflict (path : String) (conflict : ¬ Consistent o.deeds) :
    ¬ Consistent (o.scanClass project path c).deeds := by
  unfold Outline.scanClass
  split
  · exact conflict
  · exact Findings.not_consistent_append _ _ conflict

/-- The type of a class is refused: the deeds that would place it are not consistent.  The outline
does these deeds nevertheless, and from then on both are in dispute. -/
theorem refuse (following : Following project start o progress s) (path : String) {f : Findings}
    {e : IndexError} (refused : s.findings.resolveType c.key = (.error e, f)) :
    Following project start (o.scanClass project path c) progress
      { s with findings := f.record (.ofIndexError .bytecode c.key e) } := by
  have prepares :
      s.findings.Prepares project c.key (f.record (.ofIndexError .bytecode c.key e)) := by
    have resolves := Findings.resolveType_resolves project following.steady c.key
    rw [refused] at resolves
    exact resolves
  have disputed := f.disputed_record (Issue.isDispute_ofIndexError c.key e)
  have conflict := ((prepares.tracks following.tracks).disputed_iff prepares.steady).mp disputed
  refine of_disputed prepares.steady (following.own.alter prepares.config)
    (prepares.config.trans following.config) disputed ?_
  unfold Outline.scanClass
  split
  · next listed =>
      by_cases earlier : s.findings.Disputed
      · exact following.conflict earlier
      · rw [following.placing_eq_nil earlier listed, List.append_nil] at conflict
        exact conflict
  · simp only [← List.append_assoc]
    exact Findings.not_consistent_append _ _ conflict

/-- The type of a class is found or placed, and the outline has done the deeds of this.  Nothing is
disputed by it. -/
theorem place (following : Following project start o progress s) {f : Findings}
    (resolved : s.findings.resolveType c.key = (.ok type, f)) :
    f.index.IsType type c.key ∧ (f.Disputed ↔ s.findings.Disputed) ∧
      Following project start { o with deeds := o.deeds ++ o.placing project c.key } progress
        { s with findings := f } := by
  have tacit := s.findings.resolveType_tacit c.key
  have resolves := Findings.resolveType_resolves project following.steady c.key
  rw [resolved] at tacit resolves
  obtain ⟨is, prepares⟩ := resolves
  have disputed_iff : f.Disputed ↔ s.findings.Disputed := by
    rw [Findings.Disputed, tacit.report, Findings.Disputed]
  refine ⟨is, disputed_iff, prepares.steady, following.own.alter prepares.config,
    prepares.config.trans following.config, prepares.tracks following.tracks, fun undisputed => ?_⟩
  exact (following.followed (mt disputed_iff.mpr undisputed)).extend following.steady
    prepares.steady prepares.toExtends tacit.superclasses undisputed _

/-- A class is applied by the scan as by the outline: refused, noted as a duplicate, or opened, gone
through and left. -/
theorem scanClass (following : Following project start o progress s) (path : String)
    (c : ClassFacts) :
    (BytecodeScan.scanClass path progress c).Ends s fun progress' t =>
      Following project start (o.scanClass project path c) progress' t := by
  unfold BytecodeScan.scanClass
  refine .edit_bind ?_
  rcases resolved : s.findings.resolveType c.key with ⟨e | type, f⟩
  · exact .alter_bind (.pure (following.refuse path resolved))
  · obtain ⟨is, disputed_iff, placed⟩ := following.place resolved
    have known_iff (undisputed : ¬ f.Disputed) :
        type ∈ progress.types ↔ c.key ∈ o.accepted.map ClassFacts.key :=
      (placed.followed undisputed).enlisted.mem_types_iff is
    by_cases known : type ∈ progress.types
    · -- decoded before: the class is noted as a duplicate
      simp only [known, if_true]
      refine .alter_bind (.pure ?_)
      have noted : Following project start _ progress
        { s with findings := f.record (.duplicateClass path c.key) } := placed.record rfl
      by_cases disputed : s.findings.Disputed
      · have conflict := following.conflict disputed
        exact noted.of_conflict (Findings.not_consistent_append _ _ conflict)
          (scanClass_conflict path conflict)
      · have listed := (known_iff (mt disputed_iff.mp disputed)).mp known
        rw [following.placing_eq_nil disputed listed, List.append_nil] at noted
        rw [Outline.scanClass, if_pos listed]
        exact noted
    · simp only [known, if_false]
      have scanned := placed.scanMembers is
        fun undisputed listed => known ((known_iff undisputed).mpr listed)
      refine scanned.bind fun sites t after => .pure ?_
      by_cases disputed : s.findings.Disputed
      · have conflict := following.conflict disputed
        exact after.of_conflict
          (Findings.not_consistent_append _ _ (Findings.not_consistent_append _ _ conflict))
          (scanClass_conflict path conflict)
      · have fresh := mt (known_iff (mt disputed_iff.mp disputed)).mpr known
        rw [Outline.scanClass, if_neg fresh, ← List.append_assoc]
        exact after

/-! ## Artifacts -/

/-- Messages do not matter. -/
theorem say (following : Following project start o progress s) (level : Level) (message : String) :
    Following project start o progress { s with findings := s.findings.say level message } :=
  ⟨⟨following.steady.index, following.steady.graph, following.steady.founded⟩,
    following.own.alter rfl, following.config,
    (Findings.Remeasures.say s.findings level message).tracks following.tracks,
    fun undisputed =>
      have followed := following.followed undisputed
      ⟨followed.issues, followed.enlisted, followed.sites, followed.heirs,
        followed.visits.visited, followed.visits.unvisited⟩⟩

/-- The classes of an artifact are scanned in order, and the outline goes along. -/
theorem scanClasses (following : Following project start o progress s) (path : String)
    (classes : List ClassFacts) :
    (classes.foldlM (BytecodeScan.scanClass path) progress).Ends s fun progress' t =>
      Following project start (classes.foldl (Outline.scanClass project path) o) progress' t := by
  let invariant (done : List ClassFacts) (progress : Progress) (t : Session σ) : Prop :=
    Following project start (done.foldl (Outline.scanClass project path) o) progress t
  have round (done : List ClassFacts) (c : ClassFacts) (progress : Progress) (t : Session σ)
      (holds : invariant done progress t) :
      (BytecodeScan.scanClass path progress c).Ends t (invariant (done ++ [c])) := by
    refine (holds.scanClass path c).mono fun progress' u after => ?_
    show Following _ _ (List.foldl _ _ _) _ _
    rw [List.foldl_append]
    exact after
  exact Ends.foldlM classes following round

/-- An artifact is applied by the scan as by the outline. -/
theorem scanArtifact (following : Following project start o progress s) (a : Artifact) :
    (BytecodeScan.scanArtifact progress a).Ends s fun progress' t =>
      Following project start (o.scanArtifact project a) progress' t := by
  unfold BytecodeScan.scanArtifact Outline.scanArtifact
  cases a.error with
  | none => exact .alter_bind ((following.say _ _).scanClasses a.path a.classes)
  | some e =>
      refine (following.scanClasses a.path a.classes).bind fun progress' t after => ?_
      exact .alter_bind (.pure (after.record rfl))

/-- **The bytecode scan follows the outline of its artifacts.**  The outline is a computation on
facts alone, without handles, visitors or a graph; the scan does the same deeds. -/
theorem run (following : Following project start o {} s) (artifacts : List Artifact) :
    (BytecodeScan.run artifacts).Ends s fun _ t =>
      ∃ progress, Following project start (o.scan project artifacts) progress t := by
  let invariant (done : List Artifact) (progress : Progress) (t : Session σ) : Prop :=
    Following project start (o.scan project done) progress t
  have round (done : List Artifact) (a : Artifact) (progress : Progress) (t : Session σ)
      (holds : invariant done progress t) :
      (BytecodeScan.scanArtifact progress a).Ends t (invariant (done ++ [a])) := by
    refine (holds.scanArtifact a).mono fun progress' u after => ?_
    show Following _ _ (List.foldl _ _ _) _ _
    rw [List.foldl_append]
    exact after
  unfold BytecodeScan.run
  refine .alter_bind ?_
  refine (Ends.foldlM artifacts (following.say _ _) round).bind fun progress t after => ?_
  obtain ⟨rv, cv, roster, -⟩ := after.own
  refine (dispatch_silent roster (.inr rfl)).bind ?_
  rintro - u rfl
  exact .alter ⟨progress, after.say _ _⟩

end Following

end BytecodeScan

end CodeMetrics
