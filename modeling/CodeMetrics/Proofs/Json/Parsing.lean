import CodeMetrics.Json.Reader
import CodeMetrics.Proofs.Json.Scanning

/-!
# Parsing written values

A value whose strings are texts and whose numbers are natural can be read back from both of its
layouts.  Both are the tokens of the value with blanks between them:

* `Plain` holds the values in question; every proof about them is an induction on it.
* `Plain.finds_compactChars` and `Plain.finds_prettyChars` scan a layout to the tokens of the value.
* `Plain.reads` reads the tokens, under any stack of open arrays and objects.
* `Plain.parse?_compact` and `Plain.parse?_pretty` put the two halves together.
-/

namespace CodeMetrics.Json

open Scanner (Idle Settled)

/-- A value whose strings are texts and whose numbers are natural. -/
inductive Plain : Json → Prop
  | null : Plain .null
  | bool (b : Bool) : Plain (.bool b)
  | nat (n : Nat) : Plain (.nat n)
  | text (s : String) : Plain (.text s)
  | array {items : List Json} (all : ∀ v ∈ items, Plain v) : Plain (.array items)
  | record {members : List (String × Json)} (all : ∀ m ∈ members, Plain m.2) :
    Plain (.record members)

/-! ## The tokens of arrays and objects -/

/-- The tokens of the items after the first. -/
def restTokens (items : List Json) : List Token :=
  items.flatMap fun v => .comma :: v.tokens

/-- The tokens of a member. -/
def pairTokens (m : String × Json) : List Token :=
  .string (some m.1) :: .colon :: m.2.tokens

/-- The tokens of the members after the first. -/
def restPairTokens (members : List (String × Json)) : List Token :=
  members.flatMap fun m => .comma :: pairTokens m

/-- The first item of an array comes without a comma, each further one after a comma. -/
theorem itemTokens_cons (v : Json) (rest : List Json) :
    itemTokens (v :: rest) = v.tokens ++ restTokens rest := by
  induction rest generalizing v with
  | nil => simp [itemTokens, restTokens]
  | cons w rest ih => simp [itemTokens, ih w, restTokens]

/-- The tokens of an array that has items, taken apart at the first item. -/
theorem tokens_array_cons (v : Json) (rest : List Json) :
    (Json.array (v :: rest)).tokens =
      [.openArray] ++ (v.tokens ++ (restTokens rest ++ [.closeArray])) := by
  simp [tokens, itemTokens_cons]

/-- The first member of an object comes without a comma, each further one after a comma. -/
theorem memberTokens_cons (m : String × Json) (rest : List (String × Json)) :
    memberTokens ((m :: rest).map fun (key, value) => (some key, value)) =
      pairTokens m ++ restPairTokens rest := by
  induction rest generalizing m with
  | nil => simp [memberTokens, pairTokens, restPairTokens]
  | cons w rest ih =>
    have later := ih w
    rw [List.map_cons] at later
    simp [memberTokens, later, pairTokens, restPairTokens]

/-- The tokens of an object that has members, taken apart at the first member. -/
theorem tokens_record_cons (m : String × Json) (rest : List (String × Json)) :
    (Json.record (m :: rest)).tokens =
      [.openObject] ++ (pairTokens m ++ (restPairTokens rest ++ [.closeObject])) := by
  rw [record, tokens, memberTokens_cons]
  simp

/-! ## Scanning a layout

Both layouts put the same pieces between the same punctuation and differ in the blanks between them,
so the scan of an array and of an object is described once, for any blanks. -/

/-- Blanks between tokens; there may be none. -/
structure Gap (gap : List Char) : Prop where
  idle : Finds Idle Idle gap []
  settled : Finds Settled Settled gap []

theorem gap_nil : Gap [] where
  idle := fun _ s idle => ⟨s, rfl, idle⟩
  settled := fun _ s settled => ⟨s, rfl, settled⟩

theorem gap_space : Gap [' '] where
  idle := (finds_blank (.inl rfl)).fromIdle
  settled := (finds_blank (.inl rfl)).settle

/-- A line break with its indentation is blank, so a scanner passes over it wherever no token is
under way. -/
theorem gap_lineBreak (depth : Nat) : Gap (lineBreak depth) where
  idle := (finds_lineBreak depth).fromIdle
  settled := (finds_lineBreak depth).settle

section Layout

variable {gap outerGap keyGap : List Char} {layout : Json → List Char}

/-- The characters of a list whose pieces each follow a comma. -/
def commaChars {α : Type} (gap : List Char) (piece : α → List Char) (l : List α) : List Char :=
  l.flatMap fun a => ',' :: gap ++ piece a

/-- The characters of an array that is not empty. -/
def arrayChars (layout : Json → List Char) (gap outerGap : List Char) (v : Json)
    (rest : List Json) : List Char :=
  ['['] ++ (gap ++ (layout v ++ (commaChars gap layout rest ++ (outerGap ++ [']']))))

/-- The characters of a member. -/
def pairChars (layout : Json → List Char) (keyGap : List Char) (m : String × Json) : List Char :=
  (Token.string (some m.1)).chars ++ (':' :: keyGap ++ layout m.2)

/-- The characters of an object that is not empty. -/
def recordChars (layout : Json → List Char) (gap outerGap keyGap : List Char) (m : String × Json)
    (rest : List (String × Json)) : List Char :=
  ['\x7b'] ++ (gap ++ (pairChars layout keyGap m ++
    (commaChars gap (pairChars layout keyGap) rest ++ (outerGap ++ ['\x7d']))))

/-- A list in any layout is found as its pieces, with a comma before each.  The gaps between them
may be filled with any blanks. -/
theorem finds_commaChars {α : Type} {piece : α → List Char} {ts : α → List Token} {l : List α}
    (blank : Gap gap) (each : ∀ a ∈ l, Finds Idle Settled (piece a) (ts a)) :
    Finds Settled Settled (commaChars gap piece l) (l.flatMap fun a => .comma :: ts a) := by
  induction l with
  | nil => exact gap_nil.settled
  | cons a l ih =>
    have first : Finds Settled Settled (',' :: gap ++ piece a) (.comma :: ts a) :=
      (Token.finds_of_divides (t := .comma) rfl).append
        (blank.idle.append (each a List.mem_cons_self))
    exact first.append (ih fun b listed => each b (List.mem_cons_of_mem a listed))

/-- An array in any layout is found as its tokens, if each of its items is. -/
theorem finds_arrayChars {v : Json} {rest : List Json} (blank : Gap gap)
    (outerBlank : Gap outerGap) (each : ∀ w ∈ v :: rest, Finds Idle Settled (layout w) w.tokens) :
    Finds Idle Settled (arrayChars layout gap outerGap v rest)
      (Json.array (v :: rest)).tokens := by
  rw [tokens_array_cons]
  obtain ⟨first, later⟩ := List.forall_mem_cons.mp each
  have closing := (Token.finds_of_divides (t := .closeArray) rfl).settle
  exact finds_openArray.append (blank.idle.append (first.append
    ((finds_commaChars blank later).append (outerBlank.settled.append closing))))

/-- A member in any layout is found as its key, a colon and its value. -/
theorem finds_pairChars {m : String × Json} (keyBlank : Gap keyGap)
    (value : Finds Idle Settled (layout m.2) m.2.tokens) :
    Finds Idle Settled (pairChars layout keyGap m) (pairTokens m) :=
  (finds_text m.1).append
    ((Token.finds_of_divides (t := .colon) rfl).append (keyBlank.idle.append value))

/-- An object in any layout is found as its tokens, if each of its values is. -/
theorem finds_recordChars {m : String × Json} {rest : List (String × Json)} (blank : Gap gap)
    (outerBlank : Gap outerGap) (keyBlank : Gap keyGap)
    (each : ∀ p ∈ m :: rest, Finds Idle Settled (layout p.2) p.2.tokens) :
    Finds Idle Settled (recordChars layout gap outerGap keyGap m rest)
      (Json.record (m :: rest)).tokens := by
  rw [tokens_record_cons]
  obtain ⟨first, later⟩ := List.forall_mem_cons.mp each
  have others := finds_commaChars blank fun p listed => finds_pairChars keyBlank (later p listed)
  have closing := (Token.finds_of_divides (t := .closeObject) rfl).settle
  exact finds_openObject.append (blank.idle.append ((finds_pairChars keyBlank first).append
    (others.append (outerBlank.settled.append closing))))

end Layout

/-- An array without items is written without a gap in every layout. -/
theorem finds_array_nil : Finds Idle Settled ['[', ']'] (Json.array []).tokens :=
  finds_openArray.append (Token.finds_of_divides (t := .closeArray) rfl).settle.fromIdle

theorem finds_record_nil : Finds Idle Settled ['\x7b', '\x7d'] (Json.record []).tokens :=
  finds_openObject.append (Token.finds_of_divides (t := .closeObject) rfl).settle.fromIdle

/-! ### The compact layout -/

/-- The characters of the compact layout. -/
def compactChars (v : Json) : List Char := v.tokens.flatMap Token.chars

/-- The compact layout of an array is the general one, with no gaps at all. -/
theorem compactChars_array_cons (v : Json) (rest : List Json) :
    compactChars (.array (v :: rest)) = arrayChars compactChars [] [] v rest := by
  simp [compactChars, tokens_array_cons, arrayChars, commaChars, restTokens, Token.chars,
    List.flatMap_assoc]

/-- The compact layout of an object is the general one, with no gaps at all. -/
theorem compactChars_record_cons (m : String × Json) (rest : List (String × Json)) :
    compactChars (.record (m :: rest)) = recordChars compactChars [] [] [] m rest := by
  simp [compactChars, tokens_record_cons, recordChars, pairChars, pairTokens, commaChars,
    restPairTokens, Token.chars, List.flatMap_assoc]

/-- A plain value in the compact layout is found as its tokens.  The induction is on the value;
arrays and objects without entries are written in one piece, so they are cases of their own. -/
theorem Plain.finds_compactChars {v : Json} (plain : v.Plain) :
    Finds Idle Settled (compactChars v) v.tokens := by
  induction plain with
  | null => simpa [compactChars, tokens] using finds_null
  | bool b => simpa [compactChars, tokens] using finds_bool b
  | nat n => simpa [compactChars, Json.nat, tokens] using finds_nat n
  | text s => simpa [compactChars, Json.text, tokens] using finds_text s
  | @array items _ ih =>
    cases items with
    | nil => exact finds_array_nil
    | cons v rest =>
      rw [compactChars_array_cons]
      exact finds_arrayChars gap_nil gap_nil ih
  | @record members _ ih =>
    cases members with
    | nil => exact finds_record_nil
    | cons m rest =>
      rw [compactChars_record_cons]
      exact finds_recordChars gap_nil gap_nil gap_nil ih

/-! ### The indented layout -/

/-- In the indented layout each further item stands on a line of its own, one level deeper than the
array. -/
theorem prettyItems_eq (depth : Nat) (items : List Json) :
    prettyItems depth items = commaChars (lineBreak depth) (prettyChars depth) items := by
  induction items with
  | nil => simp [prettyItems, commaChars]
  | cons v items ih => simp [prettyItems, ih, commaChars]

/-- In the indented layout each further member stands on a line of its own, with a blank after the
colon. -/
theorem prettyMembers_eq (depth : Nat) (members : List (String × Json)) :
    prettyMembers depth (members.map fun (key, value) => (some key, value)) =
      commaChars (lineBreak depth) (pairChars (prettyChars depth) [' ']) members := by
  induction members with
  | nil => simp [prettyMembers, commaChars]
  | cons m members ih => simp [prettyMembers, ih, commaChars, pairChars]

/-- The indented layout of an array is the general one, with line breaks as gaps. -/
theorem prettyChars_array_cons (depth : Nat) (v : Json) (rest : List Json) :
    prettyChars depth (.array (v :: rest)) =
      arrayChars (prettyChars (depth + 1)) (lineBreak (depth + 1)) (lineBreak depth) v rest := by
  simp [prettyChars, prettyItems_eq, arrayChars]

/-- The indented layout of an object is the general one, with line breaks as gaps and a blank after
each colon. -/
theorem prettyChars_record_cons (depth : Nat) (m : String × Json) (rest : List (String × Json)) :
    prettyChars depth (.record (m :: rest)) =
      recordChars (prettyChars (depth + 1)) (lineBreak (depth + 1)) (lineBreak depth) [' '] m
        rest := by
  simp [record, prettyChars, prettyMembers_eq, recordChars, pairChars]

/-- A plain value in the indented layout is found as its tokens, at every depth.  The depth changes
the blanks only, and a scanner that is between two tokens passes over them. -/
theorem Plain.finds_prettyChars {v : Json} (plain : v.Plain) (depth : Nat) :
    Finds Idle Settled (prettyChars depth v) v.tokens := by
  induction plain generalizing depth with
  | null => simpa [prettyChars, tokens] using finds_null
  | bool b => simpa [prettyChars, tokens] using finds_bool b
  | nat n => simpa [prettyChars, Json.nat, tokens] using finds_nat n
  | text s => simpa [prettyChars, Json.text, tokens] using finds_text s
  | @array items _ ih =>
    cases items with
    | nil => exact finds_array_nil
    | cons v rest =>
      rw [prettyChars_array_cons]
      exact finds_arrayChars (gap_lineBreak _) (gap_lineBreak _)
        fun w listed => ih w listed (depth + 1)
  | @record members _ ih =>
    cases members with
    | nil => exact finds_record_nil
    | cons m rest =>
      rw [prettyChars_record_cons]
      exact finds_recordChars (gap_lineBreak _) (gap_lineBreak _) gap_space
        fun p listed => ih p listed (depth + 1)

/-! ## Reading the tokens -/

/-- No value begins with a closing bracket, so the first item is read like any other value. -/
theorem foldlM_firstItem (v : Json) (more : List Token) (outer : List Open) :
    (v.tokens ++ more).foldlM Reading.take (.firstItem outer) =
      (v.tokens ++ more).foldlM Reading.take (.value (.array [] :: outer)) := by
  cases v <;> rfl

/-- Reading the tokens of a value gives the value, under any open arrays and objects. -/
def Reads (v : Json) : Prop :=
  ∀ outer more, (v.tokens ++ more).foldlM Reading.take (.value outer) =
    more.foldlM Reading.take (.after v outer)

/-- Reading the rest of an array completes it: the items that were read before come first, in their
order, and then those that follow. -/
theorem foldlM_restTokens {rest : List Json} (each : ∀ w ∈ rest, Reads w) (v : Json)
    (items : List Json) (outer : List Open) (more : List Token) :
    (restTokens rest ++ .closeArray :: more).foldlM Reading.take
        (.after v (.array items :: outer)) =
      more.foldlM Reading.take (.after (.array (items.reverse ++ v :: rest)) outer) := by
  induction rest generalizing v items with
  | nil => simp [restTokens, Reading.take]
  | cons w rest ih =>
    obtain ⟨next, later⟩ := List.forall_mem_cons.mp each
    have step : (restTokens (w :: rest) ++ .closeArray :: more).foldlM Reading.take
        (.after v (.array items :: outer)) =
        (w.tokens ++ (restTokens rest ++ .closeArray :: more)).foldlM Reading.take
          (.value (.array (v :: items) :: outer)) := by
      simp [restTokens, Reading.take]
    rw [step, next, ih later]
    simp

/-- Reading the rest of an object completes it, with the members in the order in which they are
written.  They are collected in reverse and turned round when the object is closed. -/
theorem foldlM_restPairTokens {rest : List (String × Json)} (each : ∀ p ∈ rest, Reads p.2)
    (key : String) (v : Json) (members : List (String × Json)) (outer : List Open)
    (more : List Token) :
    (restPairTokens rest ++ .closeObject :: more).foldlM Reading.take
        (.after v (.object (members.map fun (k, w) => (some k, w)) (some key) :: outer)) =
      more.foldlM Reading.take
        (.after (.record (members.reverse ++ (key, v) :: rest)) outer) := by
  induction rest generalizing key v members with
  | nil => simp [restPairTokens, Reading.take, record]
  | cons p rest ih =>
    obtain ⟨next, later⟩ := List.forall_mem_cons.mp each
    have step : (restPairTokens (p :: rest) ++ .closeObject :: more).foldlM Reading.take
        (.after v (.object (members.map fun (k, w) => (some k, w)) (some key) :: outer)) =
        (p.2.tokens ++ (restPairTokens rest ++ .closeObject :: more)).foldlM Reading.take
          (.value (.object (((key, v) :: members).map fun (k, w) => (some k, w)) (some p.1) ::
            outer)) := by
      simp [restPairTokens, pairTokens, Reading.take]
    rw [step, next, ih later]
    simp

/-- **The tokens of a plain value are read as this value**, in any context and whatever follows.
The induction is on the value, with arrays and objects taken apart at their first entry. -/
theorem Plain.reads {v : Json} (plain : v.Plain) : Reads v := by
  induction plain with
  | null | bool | nat | text =>
    intro outer more
    rfl
  | @array items _ ih =>
    intro outer more
    cases items with
    | nil => rfl
    | cons v rest =>
      -- the bracket is taken, then the first item, and the loop over the others ends with the
      -- bracket that closes
      obtain ⟨first, later⟩ := List.forall_mem_cons.mp ih
      have opened : ((Json.array (v :: rest)).tokens ++ more).foldlM Reading.take (.value outer) =
          (v.tokens ++ (restTokens rest ++ .closeArray :: more)).foldlM Reading.take
            (.firstItem outer) := by
        simp [tokens_array_cons, Reading.take, Reading.takeValue]
      rw [opened, foldlM_firstItem, first, foldlM_restTokens later]
      rfl
  | @record members _ ih =>
    intro outer more
    cases members with
    | nil => rfl
    | cons m rest =>
      obtain ⟨first, later⟩ := List.forall_mem_cons.mp ih
      have opened : ((Json.record (m :: rest)).tokens ++ more).foldlM Reading.take
          (.value outer) =
          (m.2.tokens ++ (restPairTokens rest ++ .closeObject :: more)).foldlM Reading.take
            (.value (.object [] (some m.1) :: outer)) := by
        simp [tokens_record_cons, pairTokens, Reading.take, Reading.takeValue]
      rw [opened, first]
      exact foldlM_restPairTokens later m.1 m.2 [] outer more

/-! ## Whole texts -/

/-- A text that scans to the tokens of a plain value is read as that value. -/
theorem Plain.parse?_eq {v : Json} (plain : v.Plain) {cs : List Char}
    (finds : Finds Idle Settled cs v.tokens) : parse? (String.ofList cs) = some v := by
  have reads := plain.reads [] []
  rw [List.append_nil] at reads
  simp [parse?, finds.scan_eq, ofTokens?, reads, Reading.finish]

/-- What is written compactly is read back. -/
theorem Plain.parse?_compact {v : Json} (plain : v.Plain) : parse? v.compact = some v :=
  plain.parse?_eq plain.finds_compactChars

/-- What is written with indentation is read back. -/
theorem Plain.parse?_pretty {v : Json} (plain : v.Plain) : parse? v.pretty = some v :=
  plain.parse?_eq (plain.finds_prettyChars 0)

end CodeMetrics.Json
