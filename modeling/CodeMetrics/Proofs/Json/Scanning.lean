import CodeMetrics.Json.Printer
import Mathlib.Tactic.IntervalCases

/-!
# Scanning written tokens

The scanner finds again the tokens whose characters it is given.  A number has no end mark, so after
a token the scanner may still be inside a number; `Settled` admits this state, and any punctuation
or blank that comes next ends the number.  `Finds` chains pieces of text by the states between them.
-/

namespace CodeMetrics.Json

/-! ## States between tokens -/

/-- The scanner stands between tokens. -/
def Scanner.Idle (found : List Token) (s : Scanner) : Prop := s = ⟨.idle, found⟩

/-- The scanner stands between tokens, or in a number that may end here. -/
inductive Scanner.Settled : List Token → Scanner → Prop
  | idle {found} : Settled found ⟨.idle, found⟩
  | number {n numeral found} (ends : n.finish = some numeral) :
    Settled (.number numeral :: found) ⟨.number n, found⟩

namespace Scanner

/-- Between two tokens a scanner is settled in particular. -/
theorem Idle.settled {found : List Token} {s : Scanner} (idle : Idle found s) :
    Settled found s := by
  subst idle
  exact .idle

/-- At the end of a text the scanner has found what it should. -/
theorem Settled.finish {found : List Token} {s : Scanner} (settled : Settled found s) :
    s.finish = some found.reverse := by
  cases settled with
  | idle => rfl
  | number ends => simp [Scanner.finish, ends]

/-- A character that no number takes is taken as if the scanner had been idle. -/
theorem Settled.take_eq {found : List Token} {s : Scanner} {c : Char} (settled : Settled found s)
    (foreign : ∀ n : PartialNumber, n.take c = none) :
    s.take c = takeIdle ⟨.idle, found⟩ c := by
  cases settled with
  | idle => rfl
  | number ends => simp [Scanner.take, foreign, ends, emit]

end Scanner

open Scanner (Idle Settled)

/-! ## Pieces of text -/

/-- From any state of the first kind, the scanner reads the characters, finds the tokens and comes
to a state of the second kind. -/
def Finds (before after : List Token → Scanner → Prop) (cs : List Char) (ts : List Token) : Prop :=
  ∀ found s, before found s →
    ∃ t, cs.foldlM Scanner.take s = some t ∧ after (ts.reverse ++ found) t

namespace Finds

variable {p q r : List Token → Scanner → Prop} {cs ds : List Char} {ts us : List Token}

/-- Pieces of text that follow each other are found one after the other, if the state after the
first is one that the second can start from. -/
theorem append (first : Finds p q cs ts) (second : Finds q r ds us) :
    Finds p r (cs ++ ds) (ts ++ us) := by
  intro found s before
  obtain ⟨mid, toMid, midway⟩ := first found s before
  obtain ⟨t, toEnd, after⟩ := second _ mid midway
  refine ⟨t, ?_, by simpa using after⟩
  simpa [List.foldlM_append, toMid] using toEnd

/-- Where no token is left under way, the tokens that were found are settled. -/
theorem settle (finds : Finds p Idle cs ts) : Finds p Settled cs ts := by
  intro found s before
  obtain ⟨t, reads, idle⟩ := finds found s before
  exact ⟨t, reads, idle.settled⟩

/-- What can follow a token under way can also follow a finished one. -/
theorem fromIdle (finds : Finds Settled q cs ts) : Finds Idle q cs ts :=
  fun found s idle => finds found s idle.settled

/-- The scanner starts idle, so a whole text is scanned to the tokens of its pieces. -/
theorem scan_eq (finds : Finds Idle Settled cs ts) : scan cs = some ts := by
  obtain ⟨t, reads, settled⟩ := finds [] {} rfl
  simp [scan, reads, settled.finish]

end Finds

/-! ## Punctuation and blanks -/

/-- The tokens that stand between values and end them. -/
def Token.divides : Token → Bool
  | .comma | .colon | .closeArray | .closeObject => true
  | _ => false

/-- A mark that divides ends whatever token is under way and is a token itself. -/
theorem Token.finds_of_divides {t : Token} (divides : t.divides = true) :
    Finds Settled Idle t.chars [t] := by
  intro found s settled
  refine ⟨⟨.idle, t :: found⟩, ?_, rfl⟩
  cases t <;> simp only [Token.divides, Bool.false_eq_true] at divides <;>
    simp only [Token.chars, List.foldlM_cons, List.foldlM_nil] <;>
    rw [settled.take_eq (fun n => by cases n with | mk stage => cases stage <;> rfl)] <;> rfl

/-- An opening bracket is a token of its own. -/
theorem finds_openArray : Finds Idle Idle ['['] [.openArray] := by
  rintro found _ rfl
  exact ⟨_, rfl, rfl⟩

theorem finds_openObject : Finds Idle Idle ['\x7b'] [.openObject] := by
  rintro found _ rfl
  exact ⟨_, rfl, rfl⟩

/-- A blank ends the token under way, if there is one, and leaves no token itself. -/
theorem finds_blank {c : Char} (blank : c = ' ' ∨ c = '\n') : Finds Settled Idle [c] [] := by
  intro found s settled
  refine ⟨⟨.idle, found⟩, ?_, rfl⟩
  obtain rfl | rfl := blank <;> simp only [List.foldlM_cons, List.foldlM_nil] <;>
    rw [settled.take_eq (fun n => by cases n with | mk stage => cases stage <;> rfl)] <;> rfl

/-- Any number of blanks between two tokens leaves no token. -/
theorem finds_spaces (n : Nat) : Finds Idle Idle (List.replicate n ' ') [] := by
  induction n with
  | zero => exact fun found s idle => ⟨s, rfl, idle⟩
  | succ n ih => exact (finds_blank (.inl rfl)).fromIdle.append ih

/-- A line break with its indentation leaves no token. -/
theorem finds_lineBreak (depth : Nat) : Finds Settled Idle (lineBreak depth) [] :=
  (finds_blank (.inr rfl)).append (finds_spaces _)

/-! ## Words -/

theorem finds_null : Finds Idle Settled Token.null.chars [.null] := by
  rintro found _ rfl
  exact ⟨_, rfl, .idle⟩

/-- Both truth values are found by their first character and the rest of the word. -/
theorem finds_bool (b : Bool) : Finds Idle Settled (Token.bool b).chars [.bool b] := by
  rintro found _ rfl
  cases b <;> exact ⟨_, rfl, .idle⟩

/-! ## Numbers -/

/-- A number that has been read up to the last digit of `n`. -/
def PartialNumber.ofNat (n : Nat) : PartialNumber where
  stage := if n = 0 then .zero else .whole
  whole := (Nat.toDigits 10 n).reverse

/-- The number that digits amount to, when nothing follows, is the numeral of these digits. -/
theorem PartialNumber.finish_ofNat (n : Nat) : (ofNat n).finish = some (.ofNat n) := by
  by_cases zero : n = 0 <;> simp [ofNat, finish, Decimal.Numeral.ofNat, zero]

/-- The digits of a natural number lead to this number.  The first of them starts it; a leading zero
stands alone, so no other numeral is taken for one. -/
theorem foldlM_take_toDigits (n : Nat) (found : List Token) :
    (Nat.toDigits 10 n).foldlM Scanner.take ⟨.idle, found⟩ = some ⟨.number (.ofNat n), found⟩ := by
  -- the last digit is the one that the recursion of the digits splits off
  induction n using Nat.strong_induction_on with
  | _ n ih =>
    by_cases small : n < 10
    · rw [Nat.toDigits_of_lt_base small]
      interval_cases n <;> rfl
    · have last : n % 10 < 10 := Nat.mod_lt _ (by decide)
      have isDigit : (n % 10).digitChar.isDigit = true := by simp [Nat.isDigit_digitChar, last]
      have front : n / 10 ≠ 0 := by omega
      have whole : n ≠ 0 := by omega
      rw [Nat.toDigits_of_base_le (by decide) (by omega), List.foldlM_append,
        ih (n / 10) (by omega)]
      simp [Scanner.take, PartialNumber.take, PartialNumber.takeDigit, PartialNumber.ofNat, isDigit,
        front, whole, Nat.toDigits_of_base_le (show 1 < 10 by decide) (show 10 ≤ n by omega)]

/-- A natural number is found as its numeral, which is settled only by what follows. -/
theorem finds_nat (n : Nat) :
    Finds Idle Settled (Token.number (.ofNat n)).chars [.number (.ofNat n)] := by
  rintro found _ rfl
  have chars : (Token.number (.ofNat n)).chars = Nat.toDigits 10 n := by
    simp [Token.chars, Decimal.Numeral.chars, Decimal.Numeral.ofNat,
      Decimal.Numeral.exponentChars]
  rw [chars, foldlM_take_toDigits]
  exact ⟨_, rfl, .number (PartialNumber.finish_ofNat n)⟩

/-! ## Strings -/

/-- A hexadecimal digit is read as the number it was written for. -/
theorem hexValue?_hexChar {n : Nat} (small : n < 16) : hexValue? (hexChar n) = some n := by
  interval_cases n <;> rfl

/-- Reading the characters of a control character by its code gives back the character.  Codes below
32 have two hexadecimal digits, after two zeros. -/
theorem foldlM_take_numericEscape {c : Char} (control : c.toNat < 32) (cs : List Char)
    (found : List Token) :
    ['\\', 'u', '0', '0', hexChar (c.toNat / 16), hexChar (c.toNat % 16)].foldlM Scanner.take
      ⟨.string { chars := cs }, found⟩ = some ⟨.string { chars := c :: cs }, found⟩ := by
  have high : hexValue? (hexChar (c.toNat / 16)) = some (c.toNat / 16) :=
    hexValue?_hexChar (by omega)
  have low : hexValue? (hexChar (c.toNat % 16)) = some (c.toNat % 16) :=
    hexValue?_hexChar (by omega)
  have code : c.toNat / 16 * 16 + c.toNat % 16 = c.toNat := by omega
  have zero : hexValue? '0' = some 0 := rfl
  simp [Scanner.take, PartialString.take, high, low, zero, code, PartialString.pushUnit,
    PartialString.push, show ¬ 55296 ≤ c.toNat by omega, show ¬ 56320 ≤ c.toNat by omega,
    Char.ofNat_toNat]

/-- A character is read back from the way it is written in a string: as itself, with a short escape,
or with a numeric one. -/
theorem foldlM_take_escape (c : Char) (cs : List Char) (found : List Token) :
    (escape c).foldlM Scanner.take ⟨.string { chars := cs }, found⟩ =
      some ⟨.string { chars := c :: cs }, found⟩ := by
  unfold escape
  split
  case h_8 quote backslash _ _ _ _ _ =>
    split
    next control => exact foldlM_take_numericEscape control cs found
    next printable =>
      have noQuote : c ≠ '"' := quote
      have noBackslash : c ≠ '\\' := backslash
      simp [Scanner.take, PartialString.take, PartialString.push, printable, noQuote, noBackslash]
  all_goals rfl

/-- The characters of a text are read back in order.  They are collected in reverse, so the new ones
come first. -/
theorem foldlM_take_escapes (text cs : List Char) (found : List Token) :
    (text.flatMap escape).foldlM Scanner.take ⟨.string { chars := cs }, found⟩ =
      some ⟨.string { chars := text.reverse ++ cs }, found⟩ := by
  induction text generalizing cs with
  | nil => rfl
  | cons c text ih =>
    rw [List.flatMap_cons, List.foldlM_append, foldlM_take_escape]
    simpa using ih (c :: cs)

/-- A text is found as one token, between its quotes. -/
theorem finds_text (s : String) :
    Finds Idle Settled (Token.string (some s)).chars [.string (some s)] := by
  rintro found _ rfl
  refine ⟨⟨.idle, .string (some s) :: found⟩, ?_, .idle⟩
  have opening : Scanner.take ⟨.idle, found⟩ '"' = some ⟨.string {}, found⟩ := rfl
  have body := foldlM_take_escapes s.toList [] found
  rw [List.append_nil] at body
  have closing : Scanner.take ⟨.string { chars := s.toList.reverse }, found⟩ '"' =
      some ⟨.idle, .string (some s) :: found⟩ := by
    simp [Scanner.take, PartialString.finish, Scanner.emit]
  simp [Token.chars, stringBody, List.foldlM_append, opening, body, closing]

end CodeMetrics.Json
