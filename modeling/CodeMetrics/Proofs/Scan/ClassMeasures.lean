import CodeMetrics.Proofs.Scan.Growth
import CodeMetrics.Proofs.Scan.MethodOwners
import CodeMetrics.Proofs.Scan.Protocol
import CodeMetrics.Proofs.Scan.Sources

/-!
# The measures of a class

Without external visitors the response set and the cohesion graph of a class are a replay of what
was said about it (`Session.mentions`), from the methods that source files have declared for it and
from its fields.  Nothing that is said about other classes counts, whether it is said before or
after, and the measures stay as they are once the class is left.

`BytecodeScan.Accounted` says so between two classes, `BytecodeScan.Accounting` inside of one;
`Analysis.scanning_accounted` is about a whole run.
-/

namespace CodeMetrics

open Scanning Session

variable {σ : Type}

/-! ## Mentions -/

/-- What an event says about the class of a type. -/
def Event.mention? (type : Handle) : Event → Option Mention
  | .method visit =>
    if visit.phase = .bytecode ∧ visit.owner = some type then some (.method visit.key) else none
  | .reference visit =>
    if visit.element = type then
      some (.reference ⟨visit.typeKey, visit.methodKey, visit.reference⟩)
    else none
  | _ => none

namespace Session

/-- What was said about the class of a type so far. -/
def mentions (s : Session σ) (type : Handle) : List Mention :=
  (s.received 0).filterMap (Event.mention? type)

variable {s t : Session σ} {e : Event} {type : Handle}

/-- One more event is told. -/
theorem mentions_concat (told : t.received 0 = s.received 0 ++ [e]) (type : Handle) :
    t.mentions type = s.mentions type ++ (e.mention? type).toList := by
  rw [mentions, told, List.filterMap_append, filterMap_singleton]
  rfl

theorem mentions_of_none (told : t.received 0 = s.received 0 ++ [e])
    (none : e.mention? type = none) :
    t.mentions type = s.mentions type := by
  rw [mentions_concat told, none]
  exact List.append_nil _

end Session

/-- An event inside of a class says nothing about another one. -/
theorem Event.Inside.mention?_of_ne {type h : Handle} {e : Event} (inside : e.Inside type)
    (other : h ≠ type) : e.mention? h = none := by
  cases inside with
  | method phase owner =>
      refine if_neg fun about => other ?_
      exact Option.some.inj (about.2.symm.trans owner)
  | reference element => exact if_neg fun about => other (about.symm.trans element)

namespace Scanning

variable {s : Session σ} {response : ResponseVisitor} {cohesion : CohesionVisitor} {e : Event}
  {badges : List Badge} {types : List Handle}

/-- What both visitors are told. -/
theorem deliveries_own (response : ResponseVisitor) (cohesion : CohesionVisitor)
    (phase : e.phase = .bytecode) (listening : e.kind ≠ .endScan) :
    Badge.deliveries (own response cohesion : Roster σ).badges e = [(0, e), (1, e)] := by
  rw [Badge.deliveries, ← Roster.called_eq, called_own, if_pos ⟨phase, listening⟩]
  rfl

/-- Every event of the bytecode scan is received once. -/
theorem dispatch_received (roster : s.roster = own response cohesion) (phase : e.phase = .bytecode)
    (listening : e.kind ≠ .endScan) :
    (dispatch e).Runs s (fun _ t => t.received 0 = s.received 0 ++ [e]) fun _ _ => True := by
  refine (dispatch_tells s e).mono (fun _ t told => ?_) fun _ _ _ => trivial
  rw [roster, deliveries_own response cohesion phase listening] at told
  rw [received_eq_told, told, List.filter_append, List.map_append, ← received_eq_told]
  rfl

/-- The visitors are told of an event inside of a class, or of its type. -/
theorem listen (sane : Sane badges s) (roster : s.roster = own response cohesion)
    (phase : e.phase = .bytecode) (listening : e.kind ≠ .endScan) (staying : e.kind ≠ .leaveType) :
    (dispatch e).Ends s fun _ t => Heard s () t ∧ t.findings = s.findings ∧
      t.roster = own (response.react s.findings e).1 (cohesion.react s.findings e).1 ∧
      t.received 0 = s.received 0 ++ [e] := by
  obtain ⟨⟨⟩, t, run, findings, roster'⟩ := dispatch_listening roster phase listening staying
  have known : ∀ visit, e = .leaveType visit → s.findings.index.Knows visit.element := by
    rintro visit rfl
    exact absurd rfl staying
  exact ⟨(), t, run, (sane.dispatch known).ok run, findings, roster',
    (dispatch_received roster phase listening).ok run⟩

end Scanning

/-! ## Methods declared before -/

namespace Findings

variable {f f' : Findings} {base : Index} {cs : List ClassFacts} {types : List Handle}
  {c : ClassFacts} {type : Handle} {owner key : String}

/-- Since the index was `base`, methods were added only to the types that were entered, which are
those of classes. -/
structure Spares (base : Index) (cs : List ClassFacts) (types : List Handle) (f : Findings) :
    Prop where
  grows : base.Grows f.index
  scanned : ∀ {h : Handle}, h ∈ types → ∃ c ∈ cs, f.index.key? h = some c.key
  spared : ∀ {owner key : String}, (∀ h ∈ types, f.index.key? h ≠ some owner) →
    f.index.OwnsMethod owner key → base.OwnsMethod owner key

namespace Spares

theorem start (f : Findings) : f.Spares f.index [] [] where
  grows := .refl _
  scanned listed := by cases listed
  spared _ owns := owns

/-- Methods are added to types that were entered, so all other types keep the methods of the
beginning. -/
theorem within {owners : String → Prop} (spares : f.Spares base cs types) (sound : f.toModel.Sound)
    (within : f.MethodsWithin owners f')
    (entered : ∀ owner, owners owner → ∃ h ∈ types, f.index.key? h = some owner) :
    f'.Spares base cs types := by
  have grows := within.evolves.grows sound
  refine ⟨spares.grows.trans grows, fun listed => ?_, fun other owns => ?_⟩
  · obtain ⟨c, read, named⟩ := spares.scanned listed
    exact ⟨c, read, grows.key_kept named⟩
  · rcases within.within owns with before | new
    · exact spares.spared (fun h listed named => other h listed (grows.key_kept named)) before
    · obtain ⟨h, listed, named⟩ := entered _ new
      exact absurd (grows.key_kept named) (other h listed)

/-- No method is added. -/
theorem spare (spares : f.Spares base cs types) (sound : f.toModel.Sound)
    (within : f.MethodsWithin (fun _ => False) f') : f'.Spares base cs types :=
  spares.within sound within fun _ => False.elim

theorem of_index (spares : f.Spares base cs types) (index : f'.index = f.index) :
    f'.Spares base cs types := by
  refine ⟨index ▸ spares.grows, ?_, ?_⟩
  · rw [index]
    exact spares.scanned
  · rw [index]
    exact spares.spared

/-- One more class is read. -/
theorem read (spares : f.Spares base cs types) (c : ClassFacts) :
    f.Spares base (cs ++ [c]) types where
  grows := spares.grows
  scanned listed := by
    obtain ⟨c', read, named⟩ := spares.scanned listed
    exact ⟨c', List.mem_append_left _ read, named⟩
  spared := spares.spared

/-- One more type is entered. -/
theorem enter (spares : f.Spares base cs types) (isType : f.index.IsType type c.key) :
    f.Spares base (cs ++ [c]) (type :: types) where
  grows := spares.grows
  scanned listed := by
    rcases List.mem_cons.mp listed with rfl | old
    · exact ⟨c, List.mem_append_right _ (List.mem_singleton_self c), isType.1⟩
    · exact (spares.read c).scanned old
  spared other := spares.spared fun h listed => other h (List.mem_cons_of_mem _ listed)

/-- A type that was not entered has the methods that were declared before. -/
theorem ownsMethod_iff (spares : f.Spares base cs types)
    (other : ∀ h ∈ types, f.index.key? h ≠ some owner) :
    f.index.OwnsMethod owner key ↔ base.OwnsMethod owner key :=
  ⟨spares.spared other, fun owns => owns.grows spares.grows⟩

end Spares

end Findings

/-! ## Measures -/

/-- The cohesion visitor of a configuration, before it is told of anything. -/
def Config.cohesion (config : Config) : CohesionVisitor := { excluded := config.excludedFields }

/-- The measures of a class are those of the mentions.  The response set starts with the methods
that its type has in `base`. -/
structure Findings.Rates (config : Config) (base : Index) (visit : TypeVisit) (ms : List Mention)
    (f : Findings) : Prop where
  response : ∃ methods : List String, methods.Nodup ∧
    (∀ key, key ∈ methods ↔ base.OwnsMethod visit.key key) ∧
    f.index.measure? visit.element Metric.rfc.name =
      some (.ofCount (ms.foldl respond methods).length)
  cohesion : f.index.measure? visit.element Metric.lcom4.name =
    some (.ofCount (ms.foldl (cohere config.excludes)
      (config.cohesion.enter visit)).complete.components.length)

theorem Findings.Rates.congr {f f' : Findings} {config : Config} {base : Index} {visit : TypeVisit}
    {ms : List Mention} (rates : f.Rates config base visit ms)
    (rfc : f'.index.measure? visit.element Metric.rfc.name =
      f.index.measure? visit.element Metric.rfc.name)
    (lcom4 : f'.index.measure? visit.element Metric.lcom4.name =
      f.index.measure? visit.element Metric.lcom4.name) : f'.Rates config base visit ms where
  response := by
    rw [rfc]
    exact rates.response
  cohesion := by
    rw [lcom4]
    exact rates.cohesion

namespace Session

variable {config : Config} {base : Index} {types entered : List Handle} {type : Handle}
  {s t : Session σ} {f : Findings} {e : Event}

/-- The classes of `types` have their measures; others were entered at most, and nothing was said
about the rest. -/
structure Rated (config : Config) (base : Index) (types entered : List Handle) (s : Session σ) :
    Prop where
  rates : ∀ {visit : TypeVisit}, .type visit ∈ s.received 0 → visit.element ∈ types →
    s.findings.Rates config base visit (s.mentions visit.element)
  visited : ∀ {visit : TypeVisit}, .type visit ∈ s.received 0 → visit.element ∈ entered
  unmentioned : ∀ {h : Handle}, h ∉ entered → s.mentions h = []

namespace Rated

theorem start (config : Config) (base : Index) (silent : s.received 0 = []) :
    s.Rated config base [] [] where
  rates _ listed := by cases listed
  visited told := by
    rw [silent] at told
    cases told
  unmentioned _ := by rw [mentions, silent, List.filterMap_nil]

/-- The findings change, and nothing is attached. -/
theorem alter (rated : s.Rated config base types entered)
    (measures : ∀ h, f.index.measuresOf h = s.findings.index.measuresOf h) :
    Rated config base types entered { s with findings := f } where
  rates told listed := (rated.rates told listed).congr (Index.measure?_congr _ (measures _))
    (Index.measure?_congr _ (measures _))
  visited told := rated.visited told
  unmentioned other := rated.unmentioned other

/-- An event is told, and nothing is attached to the types that have their measures.  So what their
measures are the numbers of stays as it was. -/
theorem tell (rated : s.Rated config base types entered) (told : t.received 0 = s.received 0 ++ [e])
    (unvisited : ∀ visit, e = .type visit → visit.element ∉ types ∧ visit.element ∈ entered)
    (unmentioned : ∀ h, h ∉ entered ∨ h ∈ types → e.mention? h = none)
    (measures : ∀ h ∈ types, t.findings.index.measuresOf h = s.findings.index.measuresOf h) :
    t.Rated config base types entered where
  rates {visit} heard listed := by
    rw [told, List.mem_append, List.mem_singleton] at heard
    rcases heard with before | rfl
    · rw [mentions_of_none told (unmentioned _ (.inr listed))]
      exact (rated.rates before listed).congr (Index.measure?_congr _ (measures _ listed))
        (Index.measure?_congr _ (measures _ listed))
    · exact absurd listed (unvisited visit rfl).1
  visited {visit} heard := by
    rw [told, List.mem_append, List.mem_singleton] at heard
    rcases heard with before | rfl
    · exact rated.visited before
    · exact (unvisited visit rfl).2
  unmentioned other := by
    rw [mentions_of_none told (unmentioned _ (.inl other))]
    exact rated.unmentioned other

/-- One more type is entered. -/
theorem enter (rated : s.Rated config base types types) (type : Handle) :
    s.Rated config base types (type :: types) where
  rates := rated.rates
  visited told := List.mem_cons_of_mem _ (rated.visited told)
  unmentioned other := rated.unmentioned fun listed => other (List.mem_cons_of_mem _ listed)

/-- The open class gets its measures. -/
theorem leave (rated : s.Rated config base types (type :: types))
    (rates : ∀ {visit : TypeVisit}, .type visit ∈ s.received 0 → visit.element = type →
      s.findings.Rates config base visit (s.mentions type)) :
    s.Rated config base (type :: types) (type :: types) where
  rates told listed := by
    rcases List.mem_cons.mp listed with same | old
    · rw [same]
      exact rates told same
    · exact rated.rates told old
  visited := rated.visited
  unmentioned := rated.unmentioned

end Rated

end Session

/-! ## The bytecode scan -/

namespace BytecodeScan

variable {badges : List Badge} {config : Config} {base : Index} {cs : List ClassFacts}
  {types : List Handle}
  {c : ClassFacts} {type : Handle} {s t : Session σ} {f : Findings}

/-- Between two classes: every class that was entered has its measures. -/
structure Accounted (badges : List Badge) (config : Config) (base : Index) (cs : List ClassFacts)
    (types : List Handle) (s : Session σ) : Prop extends Underway badges types s where
  own : ∃ response cohesion, s.roster = Scanning.own response cohesion ∧
    cohesion.excluded = config.excludedFields
  spares : s.findings.Spares base cs types
  rated : s.Rated config base types types

/-- Inside of a class: the visitors remember what was said about it. -/
structure Accounting (badges : List Badge) (config : Config) (base : Index) (cs : List ClassFacts)
    (types : List Handle) (c : ClassFacts) (type : Handle) (s : Session σ) : Prop
    extends Opened badges types c type s where
  new : type ∉ types
  spares : s.findings.Spares base (cs ++ [c]) (type :: types)
  rated : s.Rated config base types (type :: types)
  visit_eq : ∀ {visit : TypeVisit}, .type visit ∈ s.received 0 → visit.element = type →
    visit = typeVisit c type
  listening : ∃ methods : List String, methods.Nodup ∧
    (∀ key, key ∈ methods ↔ base.OwnsMethod c.key key) ∧
    s.roster = Scanning.own (.at type methods (s.mentions type))
      (config.cohesion.at (config.cohesion.enter (typeVisit c type)) (s.mentions type))

namespace Accounted

/-- The scan goes on without attaching anything. -/
theorem alter (accounted : Accounted badges config base cs types s)
    (underway : Underway badges types { s with findings := f })
    (spares : f.Spares base cs types)
    (measures : ∀ h, f.index.measuresOf h = s.findings.index.measuresOf h) :
    Accounted badges config base cs types { s with findings := f } where
  toUnderway := underway
  own := accounted.own
  spares := spares
  rated := accounted.rated.alter measures

/-- A message, an issue or a count. -/
theorem note (accounted : Accounted badges config base cs types s)
    (underway : Underway badges types { s with findings := f })
    (index : f.index = s.findings.index) :
    Accounted badges config base cs types { s with findings := f } :=
  accounted.alter underway (accounted.spares.of_index index) fun _ => by rw [index]

/-- A class is passed over. -/
theorem pass {result : Except IndexError Handle}
    (accounted : Accounted badges config base cs types s)
    (resolved : s.findings.resolveType c.key = (result, f)) (i : Issue) :
    Accounted badges config base (cs ++ [c]) types { s with findings := f.record i } := by
  have tacit := s.findings.resolveType_tacit c.key
  have spares := Findings.resolveType_spares accounted.sound c.key
  rw [resolved] at tacit spares
  have passed := accounted.alter (accounted.toUnderway.record tacit.toKeeps i)
    ((accounted.spares.spare accounted.sound spares).of_index rfl) tacit.measures
  exact { passed with spares := passed.spares.read c }

/-- The methods of a type that is new are those that were declared before. -/
theorem ownsMethod_iff (accounted : Accounted badges config base cs types s)
    (resolved : s.findings.resolveType c.key = (.ok type, f)) (new : type ∉ types) (key : String) :
    (f.openClass c type).index.OwnsMethod c.key key ↔ base.OwnsMethod c.key key := by
  have tacit := s.findings.resolveType_tacit c.key
  have spares := Findings.resolveType_spares accounted.sound c.key
  rw [resolved] at tacit spares
  have sound := tacit.evolves.sound accounted.sound
  have isType := Findings.isType_of_resolveType accounted.sound resolved
  have opening := Findings.openClass_spares sound isType
  have opened := (accounted.spares.spare accounted.sound spares).spare sound opening
  refine opened.ownsMethod_iff fun h listed named => new ?_
  have coherent := (opening.evolves.sound sound).index.toCoherent
  rw [coherent.key?_injective ((opening.evolves.grows sound).key_kept isType.1) named]
  exact listed

/-- A class is entered.  Both visitors start anew, with the methods that are known of the type by
now and with the fields of the class, and nothing has been attached yet. -/
theorem enter (accounted : Accounted badges config base cs types s)
    (resolved : s.findings.resolveType c.key = (.ok type, f)) (new : type ∉ types) :
    (dispatch (.type (typeVisit c type))).Ends { s with findings := f.openClass c type }
      fun _ t => Accounting badges config base cs types c type t := by
  have tacit := s.findings.resolveType_tacit c.key
  have resolving := Findings.resolveType_spares accounted.sound c.key
  rw [resolved] at tacit resolving
  have sound := tacit.evolves.sound accounted.sound
  have isType := Findings.isType_of_resolveType accounted.sound resolved
  have opening := Findings.openClass_spares sound isType
  obtain ⟨enriches, -, -⟩ := Findings.openClass_inherits sound isType
  have measures (h : Handle) :
      (f.openClass c type).index.measuresOf h = s.findings.index.measuresOf h :=
    (enriches.measures h).trans (tacit.measures h)
  have opened := Opened.enter accounted.toUnderway resolved new
  have spares := ((accounted.spares.spare accounted.sound resolving).spare sound opening).enter
    opened.isType
  have rated := (accounted.rated.alter measures).enter type
  obtain ⟨rv, ⟨excluded, current⟩, roster, same⟩ := accounted.own
  have excluded_eq : excluded = config.excludedFields := same
  subst excluded_eq
  refine (listen opened.toSane roster rfl (by rintro ⟨⟩) (by rintro ⟨⟩)).mono ?_
  rintro - t ⟨heard, findings, roster', told⟩
  have opened' := opened.heard heard
  have mentions : t.mentions type = [] :=
    (mentions_of_none told rfl).trans (accounted.rated.unmentioned new)
  refine ⟨opened', new, findings ▸ spares, ?_, fun {visit} heard same => ?_, ?_⟩
  · -- the classes before: the event is about none of them
    refine rated.tell told ?_ (fun _ _ => rfl) fun h _ => by rw [findings]
    rintro visit ⟨⟩
    exact ⟨new, List.mem_cons_self ..⟩
  · rw [told, List.mem_append, List.mem_singleton] at heard
    rcases heard with before | last
    · exact absurd (same ▸ accounted.rated.visited before) new
    · exact Event.type.inj last
  · -- the open class: nothing was mentioned yet, and its response set starts with the methods it
    -- owns
    refine ⟨(((f.openClass c type).index.members c.key .method).map Element.key).eraseDups,
      nodup_eraseDups _, fun key => ?_, ?_⟩
    · rw [List.mem_eraseDups, (opening.evolves.sound sound).index.mem_keys_members_iff]
      exact accounted.ownsMethod_iff resolved new key
    · rw [roster', response_react_type _ rfl, cohesion_react_type _ rfl, mentions]
      rfl

/-- The end of the scan is not told to the visitors of the analysis itself. -/
theorem close (accounted : Accounted badges config base cs types s) :
    (dispatch (.endScan .bytecode)).Ends s fun _ t => Accounted badges config base cs types t := by
  obtain ⟨rv, cv, roster, -⟩ := accounted.own
  refine (dispatch_silent roster (.inr rfl)).mono ?_
  rintro - t rfl
  exact accounted

end Accounted

namespace Accounting

/-- The scan goes on inside of the class. -/
theorem alter (accounting : Accounting badges config base cs types c type s)
    (keeps : s.findings.Keeps f)
    (within : s.findings.MethodsWithin (· = c.key) f) :
    Accounting badges config base cs types c type { s with findings := f } where
  toOpened := accounting.toOpened.keeps keeps
  new := accounting.new
  spares := accounting.spares.within accounting.sound within fun _ same =>
    ⟨type, List.mem_cons_self .., same ▸ accounting.isType.1⟩
  rated := accounting.rated.alter keeps.measures
  visit_eq := accounting.visit_eq
  listening := accounting.listening

/-- Something is said about the class.  Both visitors take it up, and the record of what was said
gets longer by the same event. -/
theorem tell (accounting : Accounting badges config base cs types c type s) {e : Event}
    (inside : e.Inside type) :
    (dispatch e).Ends s fun _ t => Accounting badges config base cs types c type t := by
  obtain ⟨phase, listening, staying⟩ := inside.goes_on
  obtain ⟨methods, nodup, declared, roster⟩ := accounting.listening
  refine (listen accounting.toSane roster phase listening staying).mono ?_
  rintro - t ⟨heard, findings, roster', told⟩
  have opened := accounting.toOpened.heard heard
  refine ⟨opened, accounting.new, findings ▸ accounting.spares, ?_,
    fun {visit} heard same => ?_, ?_⟩
  · refine accounting.rated.tell told ?_ (fun h about => ?_)
      fun h _ => by rw [findings]
    · rintro visit rfl
      cases inside
    · refine inside.mention?_of_ne ?_
      rintro rfl
      rcases about with outside | listed
      · exact outside (List.mem_cons_self ..)
      · exact accounting.new listed
  · rw [told, List.mem_append, List.mem_singleton] at heard
    rcases heard with before | rfl
    · exact accounting.visit_eq before same
    · cases inside
  · refine ⟨methods, nodup, declared, ?_⟩
    -- both visitors go on by what the event mentions of the class
    rw [roster', mentions_concat told]
    cases inside with
    | @method visit phase owner =>
        have mention : (Event.method visit).mention? type = some (.method visit.key) :=
          if_pos ⟨phase, owner⟩
        rw [mention, response_react_method _ _ _ _ phase owner,
          cohesion_react_method _ _ phase owner]
        rfl
    | @reference visit element =>
        have mention : (Event.reference visit).mention? type =
            some (.reference ⟨visit.typeKey, visit.methodKey, visit.reference⟩) := if_pos element
        rw [mention, response_react_reference _ _ _ _ element,
          cohesion_react_reference _ _ element]
        rfl

/-- The class is left, and its measures are attached: the size of its response set and the number of
components.  Both visitors forget the class with this. -/
theorem leave (accounting : Accounting badges config base cs types c type s) :
    (dispatch (.leaveType (typeVisit c type))).Ends s
      fun _ t => Accounted badges config base (cs ++ [c]) (type :: types) t := by
  have known : s.findings.index.Knows type := .of_key? accounting.isType.1
  obtain ⟨methods, nodup, declared, roster⟩ := accounting.listening
  have left : (dispatch (.leaveType (typeVisit c type))).Ends s _ :=
    (dispatch_leave roster rfl known).and (dispatch_leave_at roster rfl known rfl rfl)
  obtain ⟨⟨⟩, t, run, ⟨remeasures, rv, cv, roster', excluded⟩, measures⟩ := left
  have heard := (accounting.dispatch (by rintro visit ⟨⟩; exact known)).ok run
  have told := (dispatch_received roster rfl (by rintro ⟨⟩)).ok run
  have rated : t.Rated config base types (type :: types) := by
    refine accounting.rated.tell told (by rintro visit ⟨⟩) (fun _ _ => rfl) fun h listed => ?_
    rw [measures, if_neg]
    rintro rfl
    exact accounting.new listed
  refine ⟨(), t, run, accounting.toUnderway.heard heard, ⟨rv, cv, roster', ?_⟩, ?_, ?_⟩
  · rw [excluded]
    rfl
  · exact accounting.spares.spare accounting.sound (.of_remeasures remeasures)
  · refine rated.leave fun {visit} heard same => ?_
    rw [told, List.mem_append, List.mem_singleton] at heard
    obtain rfl := accounting.visit_eq (heard.resolve_right (by rintro ⟨⟩)) same
    have mentions : t.mentions type = s.mentions type := mentions_of_none told rfl
    have attached := (measures type).trans (if_pos rfl)
    refine ⟨⟨methods, nodup, declared, ?_⟩, ?_⟩
    · show t.findings.index.measure? type _ = _
      -- the second value is attached under another name, so the first one stays
      have other : Metric.lcom4.name ≠ Metric.rfc.name := by decide
      rw [Index.measure?, attached, mentions, Std.ExtTreeMap.getElem?_insert,
        if_neg fun same => other (Std.LawfulEqOrd.compare_eq_iff_eq.mp same)]
      exact Std.ExtTreeMap.getElem?_insert_self
    · show t.findings.index.measure? type _ = _
      rw [Index.measure?, attached, mentions]
      exact Std.ExtTreeMap.getElem?_insert_self

end Accounting

/-- Every step of the bytecode scan keeps account of the classes.  A class that is refused or was
met before leaves the account as it is; any other class is entered and left. -/
theorem steps_accounted (badges : List Badge) (config : Config) (base : Index) :
    Steps (fun cs _ types (s : Session σ) => Accounted badges config base cs types s)
      (fun cs _ types c type s => Accounting badges config base cs types c type s)
      (fun _ _ => False) where
  coherent accounting := accounting.sound.index.toCoherent
  say level message accounted :=
    accounted.note (accounted.keeps (.say _ level message)) rfl
  fail path message kept accounted :=
    accounted.note (accounted.record (.refl _) (.decodeFailed path message kept)) rfl
  refuse accounted resolved := accounted.pass resolved _
  again path accounted resolved _ := accounted.pass resolved (.duplicateClass path _)
  enter accounted resolved new := .of_ends (accounted.enter resolved new)
  declare {_ _ _ c _ _ m} _ accounting := by
    refine accounting.alter
      (Findings.declareMember_keeps accounting.sound (c.methodKey m) (.inr rfl) (some c.key)) ?_
    refine (Findings.declareFact_methodsWithin accounting.sound _ _ _ _).mono ?_
    rintro owner ⟨-, reported⟩
    exact (Option.some.inj reported).symm
  tell inside _ accounting := .of_ends (accounting.tell inside)
  refer {_ _ _ c _ _} r accounting := by
    refine accounting.alter (Findings.addReference_keeps accounting.sound c r) ?_
    exact (Findings.addReference_spares accounting.sound c r).mono fun _ => False.elim
  leave accounting := .of_ends accounting.leave
  close accounted := .of_ends accounted.close

end BytecodeScan

/-! ## Whole runs -/

/-- In the source scan nothing is told to the visitors of the analysis itself.  They are subscribed
to the other scan only. -/
theorem SourceScan.steps_untold (badges : List Badge) (response : ResponseVisitor)
    (cohesion : CohesionVisitor) :
    Steps (fun _ (s : Session σ) => Underway badges [] s ∧ s.roster = own response cohesion ∧
      s.received 0 = []) (fun _ _ => False) where
  coherent held := held.1.sound.index.toCoherent
  say level message held := ⟨held.1.keeps (.say _ level message), held.2⟩
  skip path message held :=
    ⟨held.1.record (.refl _) (.parseFailed path message), held.2⟩
  declare {_ s} d held := by
    have keeps : s.findings.Keeps (s.findings.declareFact .source d.key d.kind d.parent).2 :=
      Findings.declareFact_keeps held.1.sound.index.toCoherent fun _ => rfl
    exact ⟨held.1.keeps keeps, held.2⟩
  tell source _ _ held := by
    refine .of_ends ((dispatch_silent held.2.1 (.inl source)).mono ?_)
    rintro - t rfl
    exact held
  count held := ⟨held.1.alter (.of_alike ⟨rfl, rfl⟩) rfl rfl, held.2⟩

namespace Analysis

variable {config : Config} {sources : List SourceFile} {declared : Session σ}

theorem sources_accounted (config : Config) (sources : List SourceFile) :
    (SourceScan.run sources).Ends (start config ([] : List (External σ × Subscription))) fun _ s =>
      BytecodeScan.Accounted (start config ([] : List (External σ × Subscription))).roster.badges
        config s.findings.index [] [] s := by
  have begun : Underway _ [] (start config ([] : List (External σ × Subscription))) :=
    start_underway config []
  refine ((SourceScan.steps_untold _ _ _).run sources ⟨begun, rfl, rfl⟩).ends.mono ?_
  rintro - s ⟨underway, own, silent⟩
  exact ⟨underway, ⟨_, _, own, rfl⟩, .start _, .start _ _ silent⟩

/-- A run without external visitors ends, and before its last metrics every class has its
measures. -/
theorem scanning_accounted
    (sourced : (SourceScan.run sources).runOn (start config []) = (.ok (), declared))
    (artifacts : List Artifact) :
    (scanning sources artifacts).Ends (start config ([] : List (External σ × Subscription)))
      fun _ t => ∃ types s,
        BytecodeScan.Accounted (start config ([] : List (External σ × Subscription))).roster.badges
          config declared.findings.index (artifacts.flatMap Artifact.classes) types s ∧
        Finished (start config ([] : List (External σ × Subscription))).roster.badges types s t :=
    by
  obtain ⟨_, _, run, accounted⟩ := sources_accounted (σ := σ) config sources
  cases sourced.symm.trans run
  have scanned := (BytecodeScan.steps_accounted _ config declared.findings.index).run artifacts
    accounted
  obtain ⟨⟨⟩, s, run', types, accounted'⟩ := scanned.ends
  obtain ⟨⟨⟩, t, run'', finished⟩ := finish_runs accounted'.toUnderway
  refine ⟨(), t, ?_, types, s, accounted', finished⟩
  rw [scanning, runOn_bind_of_ok run, runOn_bind_of_ok run', run'']

end Analysis

end CodeMetrics
