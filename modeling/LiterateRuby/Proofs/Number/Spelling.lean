import LiterateRuby.Proofs.Number.Layout
import LiterateRuby.Proofs.Number.Shortest

/-! # Decimals that are written as they were read

A decimal with a point is read as a floating-point number and written again. What is written is the same text exactly
if the decimal is in positional notation, is zero or near one, and is the shortest decimal that is read as its number,
nearest to it among those of its length (`text_ofDecimal_iff`).
-/

namespace LiterateRuby.Number

namespace Binary64

/-- A decimal without trailing zeros that is read as a positive number: no multiple of a greater power of ten is, of
the multiples of its own power that are none is nearer to the number, and if another one is as near it is even. -/
structure Briefest (mantissa : Nat) (exponent : Int) (digits : Nat) (scale : Int) : Prop where
  stripped : digits % 10 ≠ 0
  read : ofDecimal false digits scale = .finite false mantissa exponent
  coarsest : ∀ coarser, scale < coarser → ∀ other, ofDecimal false other coarser ≠ .finite false mantissa exponent
  nearest : ∀ other, ofDecimal false other scale = .finite false mantissa exponent →
    |decimal digits scale - magnitude mantissa exponent| ≤ |decimal other scale - magnitude mantissa exponent|
  even : ∀ other, ofDecimal false other scale = .finite false mantissa exponent →
    |decimal digits scale - magnitude mantissa exponent| = |decimal other scale - magnitude mantissa exponent| →
    other = digits ∨ digits % 2 = 0

section Briefest

variable {mantissa digits : Nat} {exponent scale : Int} (canonical : Canonical mantissa exponent)
include canonical

private theorem read_iff_contains (negative : Bool) :
    ofDecimal negative digits scale = .finite negative mantissa exponent ↔
      (neighbourhood mantissa exponent).Contains (decimal digits scale) := by
  rcases Nat.eq_zero_or_pos digits with rfl | positive
  · constructor
    · intro read
      exact absurd (ofDecimal_cases read canonical.positive).1 (lt_irrefl 0)
    · intro inside
      exact absurd (digits_pos_of_contains canonical.positive inside) (lt_irrefl 0)
  · exact ofDecimal_eq_finite_iff canonical positive

private theorem briefest_iff :
    Briefest mantissa exponent digits scale ↔ Shortest mantissa exponent digits scale := by
  constructor
  · rintro ⟨stripped, read, coarsest, nearest, even⟩
    simp only [ne_eq, read_iff_contains canonical] at read coarsest nearest even
    exact ⟨stripped, ⟨read, nearest, even⟩, coarsest⟩
  · rintro ⟨stripped, ⟨read, nearest, even⟩, coarsest⟩
    simp only [← read_iff_contains canonical false] at read coarsest nearest even
    exact ⟨stripped, read, coarsest, nearest, even⟩

end Briefest

/-- A decimal is in the bounds of positional notation exactly if its point is. -/
theorem between_iff {digits : Nat} {scale : Int} (positive : 0 < digits) :
    (10 : ℚ) ^ (-4 : Int) ≤ decimal digits scale ∧ decimal digits scale < 10 ^ (16 : Int) ↔
      -4 < scale + (natDigits digits).length ∧ scale + (natDigits digits).length ≤ 16 := by
  obtain ⟨least, most⟩ := decimal_bounds positive scale
  constructor
  · rintro ⟨low, high⟩
    have lower := (zpow_lt_zpow_iff_right₀ (by norm_num : (1 : ℚ) < 10)).mp (low.trans_lt most)
    have upper := (zpow_lt_zpow_iff_right₀ (by norm_num : (1 : ℚ) < 10)).mp (least.trans_lt high)
    omega
  · rintro ⟨lower, upper⟩
    exact ⟨(zpow_le_zpow_right₀ (by norm_num) (by omega)).trans least,
      most.trans_le (zpow_le_zpow_right₀ (by norm_num) (by omega))⟩

/-! ## The text of a number -/

section Text

variable {mantissa : Nat} {exponent : Int}

/-- A number with a full mantissa is written as its shortest decimal. -/
theorem bodyText_shortest (canonical : Canonical mantissa exponent) (full : 2 ^ 52 ≤ mantissa) :
    ∃ digits scale, Shortest mantissa exponent digits scale ∧
      bodyText mantissa exponent = layout (natDigits digits) (scale + (natDigits digits).length) := by
  obtain ⟨digits, zeros, scale, result, shortest⟩ := shortest_stripped canonical full
  refine ⟨digits, scale + zeros, shortest, ?_⟩
  rw [bodyText, if_neg canonical.positive.ne', result, dropTrailingZeros_natDigits shortest.stripped,
    natDigits_mul_pow shortest.positive, List.length_append, List.length_replicate]
  congr 1
  push_cast
  ring

private theorem point_of_plain {digits : List Char} {point : Int} (plain : 'e' ∉ layout digits point) :
    -4 < point ∧ point ≤ 16 := by
  have near : ¬(point ≤ -4 ∨ 16 < point) := fun beyond => plain (layout_scientific beyond _)
  omega

/-- A number that is written without an exponent has a full mantissa. -/
theorem full_of_positional (canonical : Canonical mantissa exponent)
    (plain : 'e' ∉ bodyText mantissa exponent) : 2 ^ 52 ≤ mantissa := by
  obtain ⟨digits, scale, result, closest, -⟩ := shortest_closest canonical
  rw [bodyText, if_neg canonical.positive.ne', result] at plain
  have given := digits_pos_of_contains canonical.positive closest.inside
  obtain ⟨least, most⟩ := (between_iff given).mpr (point_of_plain plain)
  obtain ⟨other, place, -, full, read⟩ := @ofDecimal_of_between false _ _ given least most
  rw [(read_iff_contains canonical false).mpr closest.inside] at read
  cases read
  exact full

end Text

/-! ## Reading and writing -/

/-- Digits before and behind a point that say what they say in the fewest places: in positional notation, zero or
near one, and as the shortest decimal that is read as their number. -/
structure Faithful (whole fraction : List Char) : Prop where
  positional : Positional whole fraction
  brief : spelled whole fraction = 0 ∨
    (10 : ℚ) ^ (-4 : Int) ≤ spelled whole fraction ∧ spelled whole fraction < 10 ^ (16 : Int) ∧
      ∃ digits scale mantissa exponent, spelled whole fraction = decimal digits scale ∧
        Briefest mantissa exponent digits scale

section Written

variable {whole fraction : List Char}

private theorem spelled_eq_zero_iff : spelled whole fraction = 0 ↔ Text.digitsValue (whole ++ fraction) = 0 := by
  have unit : (10 : ℚ) ^ (-(fraction.length : Int)) ≠ 0 := by positivity
  rw [spelled, decimal, mul_eq_zero_iff_right unit, Nat.cast_eq_zero]

private theorem positional_zero : Positional ['0'] ['0'] :=
  ⟨plain_zero, plain_zero.ascii, plain_zero.given, fun _ => rfl⟩

private theorem spelled_zero : spelled ['0'] ['0'] = 0 := spelled_eq_zero_iff.mpr (by decide)

private theorem digitsValue_pos (low : (10 : ℚ) ^ (-4 : Int) ≤ spelled whole fraction) :
    0 < Text.digitsValue (whole ++ fraction) := by
  rw [Nat.pos_iff_ne_zero]
  intro zero
  rw [spelled_eq_zero_iff.mpr zero] at low
  exact absurd low (not_le.mpr (by positivity))

/-- Faithful digits are written as the number that they are read as. -/
theorem Faithful.bodyText {mantissa : Nat} {exponent : Int} (faithful : Faithful whole fraction)
    (read : ofDecimal false (Text.digitsValue (whole ++ fraction)) (-fraction.length) =
      .finite false mantissa exponent) : bodyText mantissa exponent = whole ++ '.' :: fraction := by
  obtain ⟨positional, zero | ⟨low, high, digits, scale, kept, place, same, briefest⟩⟩ := faithful
  · obtain ⟨rfl, rfl⟩ := positional.unique positional_zero (zero.trans spelled_zero.symm)
    cases read
    rfl
  · have given := digitsValue_pos low
    rw [spelled] at low high same
    obtain ⟨other, power, canonical, full, result⟩ := @ofDecimal_of_between false _ _ given low high
    rw [read] at result
    cases result
    have again : ofDecimal false digits scale = .finite false mantissa exponent := by
      rw [read_iff_contains canonical, ← same]
      exact (read_iff_contains canonical false).mp read
    rw [briefest.read] at again
    cases again
    obtain ⟨shown, shownScale, shortest, text⟩ := bodyText_shortest canonical full
    obtain ⟨rfl, rfl⟩ := ((briefest_iff canonical).mp briefest).unique shortest
    rw [same] at low high
    obtain ⟨least, most⟩ := (between_iff shortest.positive).mp ⟨low, high⟩
    obtain ⟨front, back, laid, other, value⟩ := layout_positional briefest.stripped least most
    rw [add_sub_cancel_right, ← same, ← spelled] at value
    obtain ⟨rfl, rfl⟩ := other.unique positional value
    rw [text, laid]

/-- Digits that are written as the number that they are read as are faithful. -/
theorem faithful_of_bodyText {mantissa : Nat} {exponent : Int} (left : ∀ c ∈ whole, Text.isDigit c = true)
    (right : ∀ c ∈ fraction, Text.isDigit c = true)
    (read : ofDecimal false (Text.digitsValue (whole ++ fraction)) (-fraction.length) =
      .finite false mantissa exponent) (text : bodyText mantissa exponent = whole ++ '.' :: fraction) :
    Faithful whole fraction := by
  rcases Nat.eq_zero_or_pos mantissa with rfl | positive
  · have zero : whole ++ '.' :: fraction = ['0'] ++ '.' :: ['0'] := text.symm
    obtain ⟨rfl, rfl⟩ := split_at_point left (isDigit_of_plain plain_zero) zero
    exact ⟨positional_zero, .inl spelled_zero⟩
  · have canonical := canonical_of_ofDecimal read positive
    have plain : 'e' ∉ bodyText mantissa exponent := by
      have known : ¬Text.isDigit 'e' = true := by decide
      rw [text, List.mem_append, List.mem_cons]
      rintro (inside | point | inside)
      · exact known (left _ inside)
      · cases point
      · exact known (right _ inside)
    obtain ⟨digits, scale, shortest, laid⟩ := bodyText_shortest canonical (full_of_positional canonical plain)
    rw [laid] at plain text
    have near := point_of_plain plain
    obtain ⟨front, back, spelling, positional, value⟩ := layout_positional shortest.stripped near.1 near.2
    rw [spelling] at text
    obtain ⟨rfl, rfl⟩ := split_at_point (isDigit_of_plain positional.whole) left text
    rw [add_sub_cancel_right] at value
    have bounds := (between_iff shortest.positive).mpr near
    rw [← value] at bounds
    exact ⟨positional, .inr ⟨bounds.1, bounds.2, digits, scale, mantissa, exponent, value,
      (briefest_iff canonical).mpr shortest⟩⟩

private theorem Faithful.finite (faithful : Faithful whole fraction) :
    ∃ mantissa exponent, ofDecimal false (Text.digitsValue (whole ++ fraction)) (-fraction.length) =
      .finite false mantissa exponent := by
  rcases faithful.brief with zero | ⟨low, high, -⟩
  · rw [spelled_eq_zero_iff.mp zero]
    exact ⟨0, leastExponent, rfl⟩
  · obtain ⟨mantissa, exponent, -, -, read⟩ := @ofDecimal_of_between false _ _ (digitsValue_pos low) low high
    exact ⟨mantissa, exponent, read⟩

/-- A decimal with a point is written as it was read exactly if its digits are faithful. -/
theorem text_ofDecimal_iff (negative : Bool) (left : ∀ c ∈ whole, Text.isDigit c = true)
    (right : ∀ c ∈ fraction, Text.isDigit c = true) :
    (ofDecimal negative (Text.digitsValue (whole ++ fraction)) (-fraction.length)).text.toList =
      signed negative (whole ++ '.' :: fraction) ↔ Faithful whole fraction := by
  have unsigned : (ofDecimal false (Text.digitsValue (whole ++ fraction)) (-fraction.length)).text.toList =
      whole ++ '.' :: fraction ↔ Faithful whole fraction := by
    rcases ofDecimal_sign false (Text.digitsValue (whole ++ fraction)) (-fraction.length) with
      infinite | ⟨mantissa, exponent, read⟩
    · constructor
      · intro text
        have pointed : '.' ∈ whole ++ '.' :: fraction := by simp
        rw [← text, infinite] at pointed
        exact absurd pointed (by decide)
      · intro faithful
        obtain ⟨mantissa, exponent, read⟩ := faithful.finite
        rw [read] at infinite
        cases infinite
    · rw [read, toList_text_finite]
      exact ⟨faithful_of_bodyText left right read, fun faithful => faithful.bodyText read⟩
  cases negative with
  | false => exact unsigned
  | true =>
    have plain : (ofDecimal false (Text.digitsValue (whole ++ fraction)) (-fraction.length)).text.toList.head? ≠
        some '-' ∧ ofDecimal false (Text.digitsValue (whole ++ fraction)) (-fraction.length) ≠ .nan := by
      rcases ofDecimal_sign false (Text.digitsValue (whole ++ fraction)) (-fraction.length) with
        infinite | ⟨mantissa, exponent, read⟩
      · rw [infinite]
        decide
      · rw [read, toList_text_finite]
        exact ⟨head?_bodyText mantissa exponent, by simp⟩
    rw [ofDecimal_true, toList_text_neg plain.1 plain.2, ← unsigned]
    exact List.cons_inj_right '-'

end Written

end Binary64

end LiterateRuby.Number
