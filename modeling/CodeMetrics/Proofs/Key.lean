import CodeMetrics.Key
import Mathlib.Data.List.TakeWhile

/-!
# The parts of a key

Source files and compiled classes meet in nothing but their keys, so a key must give back what it
was made of.  A member key is cut at its first `#`, a type key at its last `/`.  Both are one cut:
the last mark of a text is the first one of the text read backwards.

The cut at the first mark is the only one with a clean part before it, whatever comes after.  This
is why an owner may hold no `#` and a member may, and why it is the other way round with packages
and simple names.
-/

namespace CodeMetrics

namespace Key

/-! ## The cut at the first mark -/

section Cut

variable {mark : Char} {text before after : List Char}

theorem ne_mark_of_notMem (clean : mark ∉ before) : ∀ c ∈ before, (c != mark) = true := by
  intro c listed
  rw [bne_iff_ne]
  rintro rfl
  exact clean listed

theorem takeWhile_cut (clean : mark ∉ before) :
    (before ++ mark :: after).takeWhile (· != mark) = before := by
  rw [List.takeWhile_append_of_pos (ne_mark_of_notMem clean), List.takeWhile_cons_of_neg (by simp),
    List.append_nil]

theorem dropWhile_cut (clean : mark ∉ before) :
    (before ++ mark :: after).dropWhile (· != mark) = mark :: after := by
  rw [List.dropWhile_append_of_pos (ne_mark_of_notMem clean), List.dropWhile_cons_of_neg (by simp)]

/-- A text without the mark is not cut. -/
theorem dropWhile_eq_nil_iff_notMem : text.dropWhile (· != mark) = [] ↔ mark ∉ text := by
  rw [List.dropWhile_eq_nil_iff]
  exact ⟨fun clean listed => by simpa using clean mark listed, ne_mark_of_notMem⟩

theorem notMem_takeWhile : mark ∉ text.takeWhile (· != mark) := by
  intro listed
  simpa using List.mem_takeWhile_imp listed

/-- A text with the mark is cut there: the two parts and the mark between them are the text. -/
theorem takeWhile_append_cut {c : Char} (cut : text.dropWhile (· != mark) = c :: after) :
    text.takeWhile (· != mark) ++ mark :: after = text := by
  have stopped : (c != mark) = false := by
    have first := List.head_dropWhile_not (l := text) (· != mark) (by rw [cut]; simp)
    simpa only [cut, List.head_cons] using first
  obtain rfl : c = mark := by simpa using stopped
  rw [← cut, List.takeWhile_append_dropWhile]

end Cut

/-! ## Members and their owners -/

variable {key owner owner' name name' package : String}

theorem toList_member (owner name : String) :
    (member owner name).toList = owner.toList ++ memberMark :: name.toList :=
  String.toList_ofList

theorem member_eq_append (owner name : String) : member owner name = owner ++ "#" ++ name := by
  apply String.toList_injective
  rw [toList_member, String.toList_append, String.toList_append, List.append_assoc]
  rfl

theorem splitMember?_eq_none_iff : splitMember? key = none ↔ memberMark ∉ key.toList := by
  rw [← dropWhile_eq_nil_iff_notMem]
  unfold splitMember?
  split
  · next uncut => exact iff_of_true rfl uncut
  · next cut => simp [cut]

/-- A key is cut into an owner without `#` and a member of which it is the key, in the one way in
which this can be done. -/
theorem splitMember?_eq_some_iff :
    splitMember? key = some (owner, name) ↔
      memberMark ∉ owner.toList ∧ member owner name = key := by
  constructor
  · unfold splitMember?
    split
    · rintro ⟨⟩
    · next cut =>
        rintro ⟨⟩
        rw [member, String.toList_ofList, String.toList_ofList, takeWhile_append_cut cut,
          String.ofList_toList]
        exact ⟨notMem_takeWhile, rfl⟩
  · rintro ⟨plain, rfl⟩
    unfold splitMember?
    simp only [toList_member, dropWhile_cut plain, takeWhile_cut plain, String.ofList_toList]

theorem splitMember?_member (plain : memberMark ∉ owner.toList) (name : String) :
    splitMember? (member owner name) = some (owner, name) :=
  splitMember?_eq_some_iff.mpr ⟨plain, rfl⟩

/-- The owner in a member key is the text before its first `#`. -/
theorem owner?_member (plain : memberMark ∉ owner.toList) (name : String) :
    owner? (member owner name) = some owner := by
  rw [owner?, splitMember?_member plain]
  rfl

theorem name?_member (plain : memberMark ∉ owner.toList) (name : String) :
    name? (member owner name) = some name := by
  rw [name?, splitMember?_member plain]
  rfl

/-- Member keys are as distinct as what they are made of. -/
theorem member_inj (plain : memberMark ∉ owner.toList) (plain' : memberMark ∉ owner'.toList) :
    member owner name = member owner' name' ↔ owner = owner' ∧ name = name' := by
  constructor
  · intro same
    have parts := splitMember?_member plain name
    rw [same, splitMember?_member plain', Option.some.injEq, Prod.mk.injEq] at parts
    exact ⟨parts.1.symm, parts.2.symm⟩
  · rintro ⟨rfl, rfl⟩
    rfl

/-- Members of one owner have different names. -/
theorem member_right_inj : member owner name = member owner name' ↔ name = name' := by
  refine ⟨fun same => ?_, congrArg _⟩
  have letters := congrArg String.toList same
  rw [toList_member, toList_member] at letters
  exact String.toList_injective (List.cons.inj (List.append_cancel_left letters)).2

/-! ## Types and their packages -/

/-- Read backwards, a type key has its simple name before the first `/`. -/
theorem reverse_toList_qualified (package name : String) :
    (package ++ "/" ++ name).toList.reverse =
      name.toList.reverse ++ packageMark :: package.toList.reverse := by
  rw [String.toList_append, String.toList_append, List.reverse_append, List.reverse_append]
  rfl

/-- A key is in a package if it is the package, a `/` and a simple name.  The last mark divides the
two, so the name has no further mark; the package may have some. -/
theorem package?_eq_some_iff :
    package? key = some package ↔
      package ≠ "" ∧ ∃ name : String, packageMark ∉ name.toList ∧ key = package ++ "/" ++ name := by
  constructor
  · unfold package?
    split
    · rintro ⟨⟩
    · next before cut =>
        split
        · rintro ⟨⟩
        · next filled =>
            rintro ⟨⟩
            rw [ne_eq, String.ofList_eq_empty_iff, List.reverse_eq_nil_iff, ← List.isEmpty_iff]
            -- read from the end, the simple name is what stands before the first mark
            let simple := (key.toList.reverse.takeWhile (· != packageMark)).reverse
            refine ⟨filled, String.ofList simple, ?_, ?_⟩
            · rw [String.toList_ofList, List.mem_reverse]
              exact notMem_takeWhile
            · rw [← String.toList_inj, ← List.reverse_inj, reverse_toList_qualified,
                String.toList_ofList, String.toList_ofList, List.reverse_reverse,
                List.reverse_reverse, takeWhile_append_cut cut]
  · rintro ⟨filled, name, simple, rfl⟩
    have clean : packageMark ∉ name.toList.reverse := by rwa [List.mem_reverse]
    have occupied : ¬ package.toList.reverse.isEmpty = true := by
      rwa [List.isEmpty_reverse, List.isEmpty_iff, String.toList_eq_nil_iff]
    unfold package?
    rw [reverse_toList_qualified, dropWhile_cut clean]
    simp only [if_neg occupied, List.reverse_reverse, String.ofList_toList]

/-- A package has a shorter key than what is in it. -/
theorem package?_ne (packaged : package? key = some package) : package ≠ key := by
  rintro rfl
  obtain ⟨-, name, -, longer⟩ := package?_eq_some_iff.mp packaged
  have same := congrArg String.length longer
  simp only [String.length_append, show "/".length = 1 from rfl] at same
  omega

/-! ## Taking keys apart and putting them together -/

/-- **Keys decode to what they encode.**  A member key is the owner, a `#` and the member, method or
field; if the owner holds no `#`, both are found again in the key, so that two different members
have different keys.  A key without `#` has no such parts, and any other key is the key of its parts,
of which the owner holds no `#`.  The package of a type is what stands before the last `/`, unless it
is empty. -/
theorem keys_decode :
    (∀ owner name : String, '#' ∉ owner.toList →
      member owner name = owner ++ "#" ++ name ∧
        owner? (member owner name) = some owner ∧ name? (member owner name) = some name) ∧
      (∀ owner name owner' name' : String, '#' ∉ owner.toList → '#' ∉ owner'.toList →
        (owner, name) ≠ (owner', name') → member owner name ≠ member owner' name') ∧
      (∀ key : String,
        (owner? key = none ↔ '#' ∉ key.toList) ∧ (name? key = none ↔ '#' ∉ key.toList) ∧
          ('#' ∈ key.toList → ∃ owner name, owner? key = some owner ∧ name? key = some name ∧
            member owner name = key ∧ '#' ∉ owner.toList)) ∧
      ∀ key package : String, package? key = some package ↔
        package ≠ "" ∧ ∃ name : String, '/' ∉ name.toList ∧ key = package ++ "/" ++ name := by
  refine ⟨fun owner name plain => ?_, fun owner name owner' name' plain plain' apart same => ?_,
    fun key => ⟨?_, ?_, fun marked => ?_⟩, fun key package => package?_eq_some_iff⟩
  · exact ⟨member_eq_append owner name, owner?_member plain name, name?_member plain name⟩
  · exact apart (Prod.ext_iff.mpr ((member_inj plain plain').mp same))
  · rw [owner?, Option.map_eq_none_iff]
    exact splitMember?_eq_none_iff
  · rw [name?, Option.map_eq_none_iff]
    exact splitMember?_eq_none_iff
  · cases cut : splitMember? key with
    | none => exact absurd marked (splitMember?_eq_none_iff.mp cut)
    | some parts =>
        obtain ⟨owner, name⟩ := parts
        obtain ⟨plain, whole⟩ := splitMember?_eq_some_iff.mp cut
        exact ⟨owner, name, by rw [owner?, cut]; rfl, by rw [name?, cut]; rfl, whole, plain⟩

/-- Several marks in a member, in an owner and at the start of a key. -/
theorem keys_decode_manyMarks :
    owner? "/a//B#f#g" = some "/a//B" ∧ name? "/a//B#f#g" = some "f#g" ∧
      member "/a" "b#c" ≠ member "/a//B" "f#g" ∧ (∃ owner name, member owner name = "##a") ∧
      package? "/a//B" = some "/a/" := by
  obtain ⟨encoded, distinct, decoded, packaged⟩ := keys_decode
  obtain ⟨whole, owned, named⟩ := encoded "/a//B" "f#g" (by decide)
  obtain ⟨-, -, cut⟩ := decoded "##a"
  obtain ⟨owner, name, -, -, joined, -⟩ := cut (by decide)
  rw [whole, show "/a//B" ++ "#" ++ "f#g" = "/a//B#f#g" by decide] at owned named
  exact ⟨owned, named, distinct _ _ _ _ (by decide) (by decide) (by decide), ⟨owner, name, joined⟩,
    (packaged _ _).mpr ⟨by decide, "B", by decide, by decide⟩⟩

end Key

end CodeMetrics
