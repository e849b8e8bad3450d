import CodeMetrics.Form.Config
import CodeMetrics.Form.Edge
import CodeMetrics.Proofs.Json.Parsing

/-!
# Facts, dependencies and configurations can be read back

Each form is written as a plain JSON value that is decoded to what it was written from; `Encodes`
says this of one value and is built up along the parts of a form.  As plain values are read back
from their texts, so are the forms.
-/

namespace CodeMetrics

namespace Json

variable {α : Type} {decode : Json → Option α}

/-- A plain JSON value that is decoded to `a`. -/
structure Encodes (decode : Json → Option α) (v : Json) (a : α) : Prop where
  plain : v.Plain
  decodes : decode v = some a

/-! ## Texts, names and lists -/

/-- A text stands for itself. -/
theorem encodes_text (s : String) : Encodes text? (.text s) s := ⟨.text s, rfl⟩

/-- A variant without contents is encoded by its name. -/
theorem encodes_name {ofName? : String → Option α} {name : String} {a : α}
    (named : ofName? name = some a) : Encodes (plainVariant? ofName?) (.text name) a :=
  ⟨.text name, named⟩

/-- A list is encoded if each of its entries is. -/
theorem encodes_list {encode : α → Json} {l : List α}
    (each : ∀ a ∈ l, Encodes decode (encode a) a) : Encodes (list? decode) (ofList encode l) l where
  plain := .array (by simpa using fun a listed => (each a listed).plain)
  decodes := by
    have items : (l.map encode).mapM decode = some l := by
      induction l with
      | nil => rfl
      | cons a l ih =>
        obtain ⟨first, later⟩ := List.forall_mem_cons.mp each
        simp [first.decodes, ih later]
    simpa [list?, ofList, items?] using items

/-- A text that may be missing is a plain value, which is null where it is missing. -/
theorem optionalText_plain (o : Option String) : (ofOption .text o).Plain := by
  cases o with
  | none => exact .null
  | some s => exact .text s

/-- A text that may be missing is read back, and so is the fact that it is missing. -/
theorem optional?_optionalText (o : Option String) :
    optional? text? (some (ofOption .text o)) = some o := by
  cases o <;> rfl

/-! ## Numbers -/

/-- The numeral of a natural number is read back as this number. -/
theorem toNat?_ofNat (n : Nat) : (Decimal.Numeral.ofNat n).toNat? = some n := by
  simp [Decimal.Numeral.ofNat, Decimal.Numeral.toNat?, Nat.ofDigitChars_ten_toDigits]

/-- A number is read back if it is below the bound of what it is read as. -/
theorem natBelow?_nat {n bound : Nat} (below : n < bound) : (nat n).natBelow? bound = some n := by
  simp [nat, natBelow?, toNat?_ofNat, below]

/-- A number that fits a significand is gathered without loss: digit by digit, and none of them is
dropped. -/
theorem foldl_takeWhole_toDigits {n : Nat} (fits : n < Decimal.significandBound) :
    (Nat.toDigits 10 n).foldl Decimal.Gathered.takeWhole ⟨0, 0, false⟩ = ⟨n, 0, false⟩ := by
  induction n using Nat.strong_induction_on with
  | _ n ih =>
    by_cases small : n < 10
    · rw [Nat.toDigits_of_lt_base small]
      interval_cases n <;> rfl
    · have digit : (n % 10).digitChar.toNat - 48 = n % 10 :=
        Nat.toNat_digitChar_sub_48_of_lt_ten (Nat.mod_lt _ (by decide))
      have whole : n / 10 * 10 + n % 10 = n := by omega
      rw [Nat.toDigits_of_base_le (by decide) (by omega), List.foldl_append,
        ih (n / 10) (by omega) (by omega)]
      simp [Decimal.Gathered.takeWhole, Decimal.Gathered.extend?, digit, whole,
        Nat.not_le.mpr fits]

/-- Such a number has a finite value. -/
theorem isSome_toFloat?_ofNat {n : Nat} (fits : n < Decimal.significandBound) :
    (Decimal.Numeral.ofNat n).toFloat?.isSome = true := by
  simp [Decimal.Numeral.toFloat?, Decimal.Numeral.ofNat, Decimal.Gathered.ofDigits,
    foldl_takeWhole_toDigits fits, Decimal.scale?]

/-! ## Records -/

/-- All members of a record have names. -/
theorem namedMembers?_record (members : List (String × Json)) :
    namedMembers? (members.map fun (key, value) => (some key, value)) = some members := by
  induction members with
  | nil => rfl
  | cons m members ih =>
    simp only [namedMembers?] at ih
    simp [namedMembers?, ih]

/-- A member of a record whose names differ is found by its name, and found once. -/
theorem memberOnce?_of_mem {members : List (String × Json)}
    (distinct : (members.map Prod.fst).Nodup) {m : String × Json} (listed : m ∈ members) :
    memberOnce? members m.1 = some (some m.2) := by
  have only : members.filter (·.1 == m.1) = [m] := by
    induction members with
    | nil => cases listed
    | cons first members ih =>
      obtain ⟨absent, rest⟩ := List.nodup_cons.mp distinct
      obtain rfl | later := List.mem_cons.mp listed
      · have others : members.filter (·.1 == m.1) = [] :=
          List.filter_eq_nil_iff.mpr fun other among same =>
            absent (List.mem_map.mpr ⟨other, among, beq_iff_eq.mp same⟩)
        simp [others]
      · have different : first.1 ≠ m.1 := fun same =>
          absent (List.mem_map.mpr ⟨m, later, same.symm⟩)
        simpa [List.filter_cons, different] using ih rest later
  simp [memberOnce?, only]

/-- A record with distinct names gives back its values in order.  With a name that occurs twice the
look-up would refuse the record. -/
theorem objectFields?_record {members : List (String × Json)} {names : List String}
    (named : members.map Prod.fst = names) (distinct : names.Nodup) :
    objectFields? names (members.map fun (key, value) => (some key, value)) =
      some (members.map fun m => some m.2) := by
  subst named
  have each : ∀ l : List (String × Json), (∀ m ∈ l, m ∈ members) →
      (l.map Prod.fst).mapM (memberOnce? members) = some (l.map fun m => some m.2) := by
    intro l listed
    induction l with
    | nil => rfl
    | cons m l ih =>
      obtain ⟨first, later⟩ := List.forall_mem_cons.mp listed
      simp [memberOnce?_of_mem distinct first, ih later]
  rw [objectFields?, namedMembers?_record]
  exact each members fun _ listed => listed

end Json

/-! ## Forms -/

/-- A word of 32 bits is encoded by its number, which is below the bound by its type. -/
theorem encodes_word (n : UInt32) : Json.Encodes word? (wordJson n) n where
  plain := .nat _
  decodes := by simp [word?, wordJson, Json.natBelow?_nat n.toNat_lt_size]

theorem encodes_kind (k : Kind) : Json.Encodes Kind.ofJson? k.toJson k :=
  Json.encodes_name (by cases k <;> rfl)

theorem encodes_edgeKind (k : EdgeKind) : Json.Encodes EdgeKind.ofJson? k.toJson k :=
  Json.encodes_name (by cases k <;> rfl)

/-- A handle is encoded by its slot.  The bound is that of a word of 64 bits, and handles of a real
index stay below it. -/
theorem encodes_handle {h : Handle} (fits : h.slot < handleBound) :
    Json.Encodes Handle.ofJson? h.toJson h where
  plain := .nat _
  decodes := by simp [Handle.ofJson?, Handle.toJson, Json.natBelow?_nat fits]

/-- A declaration is read back from its form, with an owner that may be missing. -/
theorem encodes_declaration (d : Declaration) :
    Json.Encodes Declaration.ofJson? d.toJson d where
  plain := .record (by
    simp [(encodes_kind d.kind).plain, Json.Plain.text, Json.optionalText_plain])
  decodes := by
    have fields : d.toJson.fields? ["kind", "key", "parent"] =
        some [some d.kind.toJson, some (.text d.key), some (.ofOption .text d.parent)] :=
      Json.objectFields?_record rfl (by decide)
    simp [Declaration.ofJson?, fields, Json.required?, (encodes_kind d.kind).decodes,
      (Json.encodes_text d.key).decodes, Json.optional?_optionalText]

/-- A field is read back from its form. -/
theorem encodes_field (f : Field) : Json.Encodes Field.ofJson? f.toJson f where
  plain := .record (by simp [Json.Plain.text])
  decodes := by
    have fields : f.toJson.fields? ["name"] = some [some (.text f.name)] :=
      Json.objectFields?_record rfl (by decide)
    simp [Field.ofJson?, fields, Json.required?, (Json.encodes_text f.name).decodes]

/-- A call is read back from its form, with its site. -/
theorem encodes_call (c : Call) : Json.Encodes Call.ofJson? c.toJson c where
  plain := .record (by simp [Call.members, (encodes_word c.site).plain, Json.Plain.text])
  decodes := by
    have fields : c.toJson.fields? ["site", "owner", "signature"] =
        some [some (wordJson c.site), some (.text c.owner), some (.text c.signature)] :=
      Json.objectFields?_record rfl (by decide)
    simp [Call.ofJson?, fields, Json.required?, (encodes_word c.site).decodes,
      (Json.encodes_text _).decodes]

/-- An access to a field is read back from its form, with its site. -/
theorem encodes_access (a : Access) : Json.Encodes Access.ofJson? a.toJson a where
  plain := .record (by simp [Access.members, (encodes_word a.site).plain, Json.Plain.text])
  decodes := by
    have fields : a.toJson.fields? ["site", "owner", "name"] =
        some [some (wordJson a.site), some (.text a.owner), some (.text a.name)] :=
      Json.objectFields?_record rfl (by decide)
    simp [Access.ofJson?, fields, Json.required?, (encodes_word a.site).decodes,
      (Json.encodes_text _).decodes]

/-- The form of a reference is flat, so it can be kept until its tag is known. -/
theorem keepable_reference (r : Reference) (depth : Nat) :
    r.toJson.keepable (depth + 1) = true := by
  have fits (n : UInt32) : n.toNat < Decimal.significandBound :=
    n.toNat_lt_size.trans (by decide)
  cases r <;>
    simp [Reference.toJson, Json.record, Json.keepable, Call.members, Access.members, wordJson,
      Json.nat, Json.text, Json.isSome_toFloat?_ofNat (fits _)]

/-- A reference is read back from its form: the one of a call or of an access, under the name of its
variant.  Reading it needs one level of nesting. -/
theorem encodes_reference (r : Reference) {depth : Nat} (deep : 1 ≤ depth) :
    Json.Encodes (Reference.ofJsonWithin? depth) r.toJson r where
  plain := by
    cases r with
    | call c =>
      exact .record (by simp [Call.members, (encodes_word c.site).plain, Json.Plain.text])
    | access a =>
      exact .record (by simp [Access.members, (encodes_word a.site).plain, Json.Plain.text])
  decodes := by
    obtain ⟨depth, rfl⟩ := Nat.exists_eq_add_of_le' deep
    rw [Reference.ofJsonWithin?, if_pos (keepable_reference r depth)]
    cases r with
    | call c =>
      have untagged : Reference.untag? (Reference.toJson (.call c)) = some ("call", c.toJson) := rfl
      simp [untagged, (encodes_call c).decodes]
    | access a =>
      have untagged : Reference.untag? (Reference.toJson (.access a)) =
          some ("field_access", a.toJson) := rfl
      simp [untagged, (encodes_access a).decodes]

/-- A method is read back with the references of its body.  Reading it needs three levels: the
method, the list and the reference. -/
theorem encodes_method (m : Method) {depth : Nat} (deep : 3 ≤ depth) :
    Json.Encodes (Method.ofJsonWithin? depth) m.toJson m := by
  have body := Json.encodes_list fun r (_ : r ∈ m.body) =>
    encodes_reference r (show 1 ≤ depth - 2 by omega)
  exact {
    plain := .record (by simp [Json.Plain.text, body.plain])
    decodes := by
      have fields : m.toJson.fields? ["signature", "body"] =
          some [some (.text m.signature), some (.ofList Reference.toJson m.body)] :=
        Json.objectFields?_record rfl (by decide)
      simp [Method.ofJsonWithin?, fields, Json.required?, (Json.encodes_text _).decodes,
        body.decodes] }

/-- A class is read back with all its fields, methods and references. -/
theorem encodes_classFacts (c : ClassFacts) : Json.Encodes ClassFacts.ofJson? c.toJson c := by
  have interfaces := Json.encodes_list fun s (_ : s ∈ c.interfaces) => Json.encodes_text s
  have members := Json.encodes_list fun f (_ : f ∈ c.fields) => encodes_field f
  have methods := Json.encodes_list fun m (_ : m ∈ c.methods) =>
    encodes_method m (show 3 ≤ depthLimit - 2 by decide)
  exact {
    plain := .record (by
      simp [Json.Plain.text, Json.optionalText_plain, interfaces.plain, members.plain,
        methods.plain])
    decodes := by
      have fields : c.toJson.fields? ["key", "superclass", "interfaces", "fields", "methods"] =
          some [some (.text c.key), some (.ofOption .text c.superclass),
            some (.ofList .text c.interfaces), some (.ofList Field.toJson c.fields),
            some (.ofList Method.toJson c.methods)] :=
        Json.objectFields?_record rfl (by decide)
      simp [ClassFacts.ofJson?, fields, Json.required?, (Json.encodes_text _).decodes,
        Json.optional?_optionalText, interfaces.decodes, members.decodes, methods.decodes] }

/-- An edge is read back from its form if the slots of its ends fit into a word of 64 bits. -/
theorem encodes_edge {e : Edge} (source : e.source.slot < handleBound)
    (target : e.target.slot < handleBound) : Json.Encodes Edge.ofJson? e.toJson e where
  plain := .record (by
    simp [(encodes_handle source).plain, (encodes_handle target).plain,
      (encodes_edgeKind e.kind).plain, (encodes_word e.usage).plain])
  decodes := by
    have fields : e.toJson.fields? ["source", "target", "kind", "usage"] =
        some [some e.source.toJson, some e.target.toJson, some e.kind.toJson,
          some (wordJson e.usage)] :=
      Json.objectFields?_record rfl (by decide)
    simp [Edge.ofJson?, fields, Json.required?, (encodes_handle source).decodes,
      (encodes_handle target).decodes, (encodes_edgeKind e.kind).decodes,
      (encodes_word e.usage).decodes]

/-- An edge with keys is read back from its form, without any condition. -/
theorem encodes_keyedEdge (e : KeyedEdge) : Json.Encodes KeyedEdge.ofJson? e.toJson e where
  plain := .record (by
    simp [Json.Plain.text, (encodes_edgeKind e.kind).plain, (encodes_word e.usage).plain])
  decodes := by
    have fields : e.toJson.fields? ["source", "target", "kind", "usage"] =
        some [some (.text e.source), some (.text e.target), some e.kind.toJson,
          some (wordJson e.usage)] :=
      Json.objectFields?_record rfl (by decide)
    simp [KeyedEdge.ofJson?, fields, Json.required?, (Json.encodes_text _).decodes,
      (encodes_edgeKind e.kind).decodes, (encodes_word e.usage).decodes]

/-- A configuration is read back from its form, with all fields written out.  Defaults are for
fields that are missing, so they play no part here. -/
theorem encodes_config (c : Config) : Json.Encodes Config.ofJson? c.toJson c := by
  have names := Json.encodes_list fun s (_ : s ∈ c.excludedFields.toList) => Json.encodes_text s
  have excluded : Config.textSet? (.ofList .text c.excludedFields.toList) =
      some c.excludedFields := by
    have same : Std.ExtTreeSet.ofList c.excludedFields.toList = c.excludedFields :=
      Std.ExtTreeSet.ext_contains fun name => by
        rw [Std.ExtTreeSet.contains_ofList, Std.ExtTreeSet.contains_toList]
    simp [Config.textSet?, names.decodes, same]
  exact {
    plain := .record (by simp [Json.Plain.text, names.plain])
    decodes := by
      have fields : c.toJson.someFields? ["project_key", "fields_to_exclude_from_lcom4"] =
          some [some (.text c.projectKey), some (.ofList .text c.excludedFields.toList)] :=
        Json.objectFields?_record rfl (by decide)
      simp [Config.ofJson?, fields, Json.defaulted?, (Json.encodes_text _).decodes, excluded] }

/-! ## Texts -/

section Texts

variable {α : Type}

/-- The value that a text is read as. -/
def readAs (ofJson? : Json → Option α) (text : String) : Option α :=
  (Json.parse? text).bind ofJson?

/-- The two layouts of a JSON value. -/
def layouts : List (Json → String) := [Json.compact, Json.pretty]

/-- Both texts of `a` are read as `a`, and writing what was read gives the same text again. -/
structure RoundTrips (toJson : α → Json) (ofJson? : Json → Option α) (a : α) : Prop where
  read : ∀ layout ∈ layouts, readAs ofJson? (layout (toJson a)) = some a
  rewrite : ∀ layout ∈ layouts,
    (readAs ofJson? (layout (toJson a))).map (fun b => layout (toJson b)) = some (layout (toJson a))

/-- A form that is read back from its value is read back from both of its texts. -/
theorem Json.Encodes.roundTrips {toJson : α → Json} {ofJson? : Json → Option α} {a : α}
    (encodes : Json.Encodes ofJson? (toJson a) a) : RoundTrips toJson ofJson? a := by
  have read : ∀ layout ∈ layouts, readAs ofJson? (layout (toJson a)) = some a := by
    simp [layouts, readAs, encodes.plain.parse?_compact, encodes.plain.parse?_pretty,
      encodes.decodes]
  exact ⟨read, fun layout listed => by simp [read layout listed]⟩

end Texts

/-- Declarations, classes with all their parts, dependencies and configurations are read back from
their JSON texts.  In a dependency between handles, these must be 64-bit numbers. -/
theorem json_forms_round_trip :
    (∀ d, RoundTrips Declaration.toJson Declaration.ofJson? d) ∧
    (∀ c, RoundTrips ClassFacts.toJson ClassFacts.ofJson? c) ∧
    (∀ f, RoundTrips Field.toJson Field.ofJson? f) ∧
    (∀ m, RoundTrips Method.toJson Method.ofJson? m) ∧
    (∀ r, RoundTrips Reference.toJson Reference.ofJson? r) ∧
    (∀ e : Edge, e.source.slot < handleBound → e.target.slot < handleBound →
      RoundTrips Edge.toJson Edge.ofJson? e) ∧
    (∀ e, RoundTrips KeyedEdge.toJson KeyedEdge.ofJson? e) ∧
    (∀ c, RoundTrips Config.toJson Config.ofJson? c) :=
  ⟨fun d => (encodes_declaration d).roundTrips,
    fun c => (encodes_classFacts c).roundTrips,
    fun f => (encodes_field f).roundTrips,
    fun m => (encodes_method m (by decide)).roundTrips,
    fun r => (encodes_reference r (by decide)).roundTrips,
    fun _ source target => (encodes_edge source target).roundTrips,
    fun e => (encodes_keyedEdge e).roundTrips,
    fun c => (encodes_config c).roundTrips⟩

/-- A dependency whose numbers are the largest that have a text. -/
def widestEdge : Edge := ⟨⟨18446744073709551615⟩, ⟨0⟩, .fieldUse, 4294967295⟩

theorem json_forms_round_trip_widest :
    widestEdge.source.slot < handleBound ∧ widestEdge.target.slot < handleBound ∧
      widestEdge.toJson.compact =
        "\x7b\"source\":18446744073709551615,\"target\":0,\"kind\":\"references_field\"," ++
          "\"usage\":4294967295\x7d" ∧
      readAs Edge.ofJson? widestEdge.toJson.compact = some widestEdge :=
  have source : widestEdge.source.slot < handleBound := by decide
  have target : widestEdge.target.slot < handleBound := by decide
  have edges := json_forms_round_trip.2.2.2.2.2.1
  ⟨source, target, by decide +kernel,
    (edges widestEdge source target).read Json.compact List.mem_cons_self⟩

end CodeMetrics
