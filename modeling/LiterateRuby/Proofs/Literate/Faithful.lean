import LiterateRuby.Literate.Declaration
import LiterateRuby.Proofs.Constant
import LiterateRuby.Proofs.Number.Spelling

/-! # Values that are written as they were read

A value of the notation is read as a number, a truth value, nothing or an expression, and written as a literal. What
is no number is always written as it was read; `literal_readValue` says which numbers are.
-/

namespace LiterateRuby.Literate

open Number (Plain)
open Number.Binary64 (Faithful signed)

/-! ## The parts of a number -/

private theorem signed_afterMinus (cs : List Char) : signed (afterMinus cs).1 (afterMinus cs).2 = cs := by
  rw [afterMinus.eq_def]
  split <;> rfl

private theorem isDigits_iff (cs : List Char) : isDigits cs = true ↔ cs ≠ [] ∧ ∀ c ∈ cs, Text.isDigit c = true := by
  simp [isDigits, List.all_eq_true]

/-- A decimal number is an optional sign and digits on both sides of a point. -/
theorem exists_of_isDecimal {cs : List Char} (decimal : isDecimal cs = true) :
    ∃ whole fraction, (afterMinus cs).2 = whole ++ '.' :: fraction ∧ whole ≠ [] ∧
      (∀ c ∈ whole, Text.isDigit c = true) ∧ ∀ c ∈ fraction, Text.isDigit c = true := by
  rw [isDecimal] at decimal
  split at decimal
  · next fraction behind =>
    rw [Bool.and_eq_true, isDigits_iff, isDigits_iff] at decimal
    obtain ⟨⟨given, left⟩, -, right⟩ := decimal
    refine ⟨_, fraction, ?_, given, left, right⟩
    rw [← behind]
    exact (List.takeWhile_append_dropWhile).symm
  · cases decimal

/-! ## Values -/

/-- The text of a value that keeps its spelling: an integer has digits of ASCII without leading zeros and is no
negative zero, and the digits of a decimal number are faithful. -/
structure Kept (cs : List Char) : Prop where
  integer : isInteger cs = true → Plain (afterMinus cs).2 ∧ cs ≠ ['-', '0']
  decimal : isDecimal cs = true →
    ∃ whole fraction, (afterMinus cs).2 = whole ++ '.' :: fraction ∧ Faithful whole fraction

private theorem not_isDecimal_of_isInteger {cs : List Char} (integer : isInteger cs = true) :
    isDecimal cs ≠ true := by
  intro decimal
  obtain ⟨whole, fraction, parts, -⟩ := exists_of_isDecimal decimal
  have digits := ((isDigits_iff _).mp integer).2
  have point := digits '.' (by simp [parts])
  exact absurd point (by decide)

/-- Digits of any script and their sign are written as they were read exactly if they are those of a number. -/
theorem intText_digitsValue {negative : Bool} {digits : List Char} (known : ∀ c ∈ digits, Text.isDigit c = true) :
    (Number.intText (if negative then -(Text.digitsValue digits : Int) else Text.digitsValue digits)).toList =
        signed negative digits ↔
      Plain digits ∧ signed negative digits ≠ ['-', '0'] := by
  cases negative with
  | false =>
    have unsigned : signed false digits ≠ ['-', '0'] := Number.not_minus_of_digits known ['0']
    rw [if_neg Bool.false_ne_true, Number.toList_intText_natCast]
    exact (Number.natDigits_digitsValue_iff digits).trans (and_iff_left unsigned).symm
  | true =>
    rw [if_pos rfl]
    rcases Nat.eq_zero_or_pos (Text.digitsValue digits) with vanishes | positive
    · -- zero loses its sign
      rw [vanishes]
      constructor
      · intro same
        cases same
      · rintro ⟨plain, unlike⟩
        have zero := Number.natDigits_digitsValue plain
        rw [vanishes] at zero
        exact absurd (by rw [← zero]; rfl) unlike
    · have unlike : signed true digits ≠ ['-', '0'] := by
        intro same
        obtain rfl : digits = ['0'] := List.tail_eq_of_cons_eq same
        exact absurd positive (by decide)
      rw [Number.toList_intText_neg positive, and_iff_left unlike, ← Number.natDigits_digitsValue_iff]
      exact List.cons_inj_right '-'

private theorem literal_readInteger {cs : List Char} (integer : isInteger cs = true)
    (few : (afterMinus cs).2.length ≤ Number.maxIntDigits) :
    ∃ i, readInteger cs = .ok i ∧ (Constant.int i).literal = .ok (Number.intText i) ∧
      ((Number.intText i).toList = cs ↔ Plain (afterMinus cs).2 ∧ cs ≠ ['-', '0']) := by
  obtain ⟨given, digits⟩ := (isDigits_iff _).mp integer
  have spelling := @intText_digitsValue (afterMinus cs).1 _ digits
  rw [signed_afterMinus] at spelling
  refine ⟨_, ?_, Constant.literal_int_eq_ok_iff.mpr ⟨?_, rfl⟩, spelling⟩
  · rw [readInteger]
    dsimp only
    rw [if_neg (Nat.not_lt.mpr few)]
  · have short := Nat.le_trans (Number.length_natDigits_digitsValue given) few
    split_ifs <;> simpa using short

private theorem text_ofText? {cs : List Char} (decimal : isDecimal cs = true) :
    ∃ x, Number.Binary64.ofText? cs = some x ∧
      (x.text.toList = cs ↔ ∃ whole fraction, (afterMinus cs).2 = whole ++ '.' :: fraction ∧ Faithful whole fraction) := by
  obtain ⟨whole, fraction, parts, given, left, right⟩ := exists_of_isDecimal decimal
  have read := Number.Binary64.ofText?_signed (afterMinus cs).1 given left right
  have spelling := Number.Binary64.text_ofDecimal_iff (afterMinus cs).1 left right
  rw [← parts, signed_afterMinus] at read spelling
  refine ⟨_, read, spelling.trans ⟨fun faithful => ⟨whole, fraction, parts, faithful⟩, ?_⟩⟩
  rintro ⟨other, rest, same, faithful⟩
  obtain ⟨rfl, rfl⟩ := Number.Binary64.split_at_point left
    (Number.isDigit_of_plain faithful.positional.whole) (parts.symm.trans same)
  exact faithful

/-- What is no number is written as it was read. -/
theorem literal_of_no_number {text : List Char} (given : Text.trim text ≠ [])
    (integer : ¬isInteger (Text.trim text) = true) (decimal : ¬isDecimal (Text.trim text) = true) :
    ∃ value, readValue text = .ok value ∧ value.literal = .ok (String.ofList (Text.trim text)) := by
  rw [readValue, if_neg integer, if_neg decimal]
  split
  · next same => exact ⟨_, rfl, by rw [same]; rfl⟩
  · next same => exact ⟨_, rfl, by rw [same]; rfl⟩
  · next same => exact ⟨_, rfl, by rw [same]; rfl⟩
  · next same => exact absurd (by simpa using congrArg String.toList same) given
  · exact ⟨_, rfl, rfl⟩

/-- A value of the notation, with digits that are not too many if it is an integer, is read, and what is written for
it is its text exactly if it keeps its spelling. -/
theorem literal_readValue {text : List Char} (given : Text.trim text ≠ [])
    (few : isInteger (Text.trim text) = true → (afterMinus (Text.trim text)).2.length ≤ Number.maxIntDigits) :
    ∃ value written, readValue text = .ok value ∧ value.literal = .ok written ∧
      (written.toList = Text.trim text ↔ Kept (Text.trim text)) := by
  by_cases integer : isInteger (Text.trim text) = true
  · obtain ⟨i, read, literal, spelling⟩ := literal_readInteger integer (few integer)
    have noDecimal := not_isDecimal_of_isInteger integer
    refine ⟨.int i, _, ?_, literal, spelling.trans ⟨fun kept => ⟨fun _ => kept, (absurd · noDecimal)⟩, ?_⟩⟩
    · rw [readValue, if_pos integer, read]
      rfl
    · exact fun kept => kept.integer integer
  by_cases decimal : isDecimal (Text.trim text) = true
  · obtain ⟨x, read, spelling⟩ := text_ofText? decimal
    refine ⟨.float x, _, ?_, rfl, spelling.trans ⟨fun kept => ⟨(absurd · integer), fun _ => kept⟩, ?_⟩⟩
    · rw [readValue, if_neg integer, if_pos decimal, read]
      rfl
    · exact fun kept => kept.decimal decimal
  · obtain ⟨value, read, literal⟩ := literal_of_no_number given integer decimal
    refine ⟨value, _, read, literal, ?_⟩
    rw [String.toList_ofList]
    exact iff_of_true rfl ⟨(absurd · integer), (absurd · decimal)⟩

/-- A leading zero is lost, which makes an integer in base eight one in base ten. -/
theorem literal_readValue_of_leading_zero :
    ∃ value written, readValue "010".toList = .ok value ∧ value.literal = .ok written ∧ written ≠ "010" := by
  obtain ⟨value, written, read, literal, spelling⟩ :=
    @literal_readValue "010".toList (by decide +kernel) (by decide +kernel)
  refine ⟨value, written, read, literal, ?_⟩
  rintro rfl
  have kept := spelling.mp (by decide +kernel)
  have plain := (kept.integer (by decide +kernel)).1
  exact absurd (plain.leading (by decide +kernel)) (by decide +kernel)

end LiterateRuby.Literate
