import LiterateRuby.Number.Decimal
import Mathlib.Algebra.Order.Field.Basic
import Mathlib.Algebra.Order.Field.Power
import Mathlib.Data.Rat.Cast.Order
import Mathlib.Tactic.Linarith
import Mathlib.Tactic.NormNum
import Mathlib.Tactic.Positivity
import Mathlib.Tactic.Ring
import Mathlib.Tactic.FieldSimp

/-! # Rounding to floating-point numbers

A quotient of natural numbers is read as a given floating-point number exactly if it lies in the neighbourhood of
that number (`ofRatio_eq_finite_iff`): within half a place of its mantissa on either side, and within a quarter
below a power of two, with the ends exactly if the mantissa is even.
-/

namespace LiterateRuby.Number

private theorem power_eq_pow (base exponent : Nat) : power base exponent = base ^ exponent := rfl

/-- A power with an integer as exponent is a quotient of two natural numbers, one of which is one. -/
theorem power_div_power (base : Nat) (exponent : Int) :
    (power base exponent.toNat : ℚ) / power base (-exponent).toNat = (base : ℚ) ^ exponent := by
  rcases Int.eq_nat_or_neg exponent with ⟨n, rfl | rfl⟩
  · simp [power_eq_pow]
  · simp [power_eq_pow]

namespace Binary64

/-! ## The nearest natural number -/

/-- A natural number is nearest to a rational one, and even if the next one is as near. -/
structure Nearest (q : ℚ) (n : Nat) : Prop where
  lower : (n : ℚ) - 1 / 2 ≤ q
  upper : q ≤ n + 1 / 2
  even : q = n - 1 / 2 ∨ q = n + 1 / 2 → n % 2 = 0

private theorem Nearest.unique {q : ℚ} {m n : Nat} (left : Nearest q m) (right : Nearest q n) : m = n := by
  wlog order : m ≤ n generalizing m n
  · exact (this right left (Nat.le_of_not_le order)).symm
  by_contra unlike
  have next : m + 1 ≤ n := by omega
  have gap : (m : ℚ) + 1 ≤ n := by exact_mod_cast next
  have above := left.upper
  have below := right.lower
  have tie : (n : ℚ) = m + 1 := by linarith
  have adjacent : n = m + 1 := by exact_mod_cast tie
  have evenLeft := left.even (.inr (by linarith))
  have evenRight := right.even (.inl (by linarith))
  omega

private theorem nearest_of_div (top : Nat) {bottom : Nat} (positive : 0 < bottom) :
    Nearest ((top : ℚ) / bottom)
      (if 2 * (top % bottom) < bottom then top / bottom
      else if bottom < 2 * (top % bottom) then top / bottom + 1
      else if top / bottom % 2 = 0 then top / bottom else top / bottom + 1) := by
  have scaled : (0 : ℚ) < bottom := by exact_mod_cast positive
  have whole : (top : ℚ) / bottom = (top / bottom : Nat) + ((top % bottom : Nat) : ℚ) / bottom := by
    rw [div_eq_iff scaled.ne', add_mul, div_mul_cancel₀ _ scaled.ne']
    exact_mod_cast (Nat.div_add_mod' top bottom).symm
  have least : (0 : ℚ) ≤ ((top % bottom : Nat) : ℚ) / bottom := by positivity
  have most : ((top % bottom : Nat) : ℚ) / bottom < 1 := by
    rw [div_lt_one scaled]
    exact_mod_cast Nat.mod_lt top positive
  have small : ((top % bottom : Nat) : ℚ) / bottom < 1 / 2 ↔ 2 * (top % bottom) < bottom := by
    rw [div_lt_div_iff₀ scaled two_pos, one_mul, mul_comm]
    exact_mod_cast Iff.rfl
  have large : 1 / 2 < ((top % bottom : Nat) : ℚ) / bottom ↔ bottom < 2 * (top % bottom) := by
    rw [div_lt_div_iff₀ two_pos scaled, one_mul, mul_comm]
    exact_mod_cast Iff.rfl
  rw [whole]
  split_ifs with under beyond even
  · have near := small.mpr under
    refine ⟨by linarith, by linarith, ?_⟩
    rintro (tie | tie) <;> linarith
  · have far := large.mpr beyond
    refine ⟨by push_cast; linarith, by push_cast; linarith, ?_⟩
    rintro (tie | tie) <;> push_cast at tie <;> linarith
  all_goals
    have low := not_lt.mp (small.not.mpr under)
    have high := not_lt.mp (large.not.mpr beyond)
  · exact ⟨by linarith, by linarith, fun _ => even⟩
  · exact ⟨by push_cast; linarith, by push_cast; linarith, fun _ => by omega⟩

/-- The quotient that a number is rounded from, in units of a power of two. -/
theorem top_div_bottom (num : Nat) {den : Nat} (exponent : Int) :
    ((num * power 2 (-exponent).toNat : Nat) : ℚ) / (den * power 2 exponent.toNat : Nat) =
      (num : ℚ) / den / 2 ^ exponent := by
  have unit := power_div_power 2 exponent
  push_cast at unit ⊢
  rw [← unit, div_div_eq_mul_div, div_mul_eq_mul_div, div_div]

private theorem nearest_roundedQuotient (num : Nat) {den : Nat} (positive : 0 < den) (exponent : Int) :
    Nearest ((num : ℚ) / den / 2 ^ exponent) (roundedQuotient num den exponent) := by
  rw [← top_div_bottom]
  exact nearest_of_div _ (Nat.mul_pos positive (power_pos two_pos _))

/-! ## The exponent -/

/-- An exponent at which a positive number has at most 53 binary digits, and fewer only at the least one. -/
structure Fits (q : ℚ) (exponent : Int) : Prop where
  least : leastExponent ≤ exponent
  upper : q < 2 ^ (53 + exponent)
  lower : leastExponent < exponent → 2 ^ (52 + exponent) ≤ q

theorem two_zpow_le_iff {a b : Int} : (2 : ℚ) ^ a ≤ 2 ^ b ↔ a ≤ b := zpow_le_zpow_iff_right₀ one_lt_two

theorem two_zpow_lt_iff {a b : Int} : (2 : ℚ) ^ a < 2 ^ b ↔ a < b := zpow_lt_zpow_iff_right₀ one_lt_two

private theorem Fits.unique {q : ℚ} {a b : Int} (left : Fits q a) (right : Fits q b) : a = b := by
  wlog order : a ≤ b generalizing a b
  · exact (this right left (Int.le_of_not_le order)).symm
  by_contra unlike
  have least := left.least
  have reaches := right.lower (by omega)
  have within := two_zpow_lt_iff.mp (reaches.trans_lt left.upper)
  omega

private theorem log2_bounds {n : Nat} (positive : 0 < n) :
    (2 : ℚ) ^ (n.log2 : Int) ≤ n ∧ (n : ℚ) < 2 ^ ((n.log2 : Int) + 1) := by
  have least := Nat.log2_self_le positive.ne'
  have most := Nat.lt_log2_self (n := n)
  exact ⟨by exact_mod_cast least, by exact_mod_cast most⟩

section Guess

variable {num den : Nat} (numerator : 0 < num) (denominator : 0 < den)
include numerator denominator

/-- A quotient lies less than a binary place from the difference of the binary lengths. -/
theorem log2_quotient_bounds :
    (2 : ℚ) ^ ((num.log2 : Int) - den.log2 - 1) ≤ (num : ℚ) / den ∧
      (num : ℚ) / den < 2 ^ ((num.log2 : Int) - den.log2 + 1) := by
  obtain ⟨numLeast, numMost⟩ := log2_bounds numerator
  obtain ⟨denLeast, denMost⟩ := log2_bounds denominator
  have scaled : (0 : ℚ) < den := by exact_mod_cast denominator
  rw [le_div_iff₀ scaled, div_lt_iff₀ scaled]
  constructor
  · calc (2 : ℚ) ^ ((num.log2 : Int) - den.log2 - 1) * den
        ≤ 2 ^ ((num.log2 : Int) - den.log2 - 1) * 2 ^ ((den.log2 : Int) + 1) := by gcongr
      _ = 2 ^ (num.log2 : Int) := by
        rw [← zpow_add₀ two_ne_zero]
        congr 1
        omega
      _ ≤ num := numLeast
  · calc (num : ℚ) < 2 ^ ((num.log2 : Int) + 1) := numMost
      _ = 2 ^ ((num.log2 : Int) - den.log2 + 1) * 2 ^ (den.log2 : Int) := by
        rw [← zpow_add₀ two_ne_zero]
        congr 1
        omega
      _ ≤ 2 ^ ((num.log2 : Int) - den.log2 + 1) * den := by gcongr

omit numerator in
/-- The whole part of a quotient in units of a power of two tells whether it has enough binary digits. -/
theorem quotient_lt_iff (exponent : Int) :
    num * power 2 (-exponent).toNat / (den * power 2 exponent.toNat) < power 2 52 ↔
      (num : ℚ) / den < 2 ^ (52 + exponent) := by
  have bottom : 0 < den * power 2 exponent.toNat := Nat.mul_pos denominator (power_pos two_pos _)
  have cast : (0 : ℚ) < (den * power 2 exponent.toNat : Nat) := by exact_mod_cast bottom
  have unit : (0 : ℚ) < 2 ^ exponent := by positivity
  rw [Nat.div_lt_iff_lt_mul bottom, zpow_add₀ two_ne_zero, ← div_lt_iff₀ unit, ← top_div_bottom, div_lt_iff₀ cast]
  norm_cast

/-- The exponent that the difference of the binary lengths gives fits, or the one below does. -/
theorem fits_exponentFor : Fits ((num : ℚ) / den) (exponentFor num den) := by
  obtain ⟨guess, guess_eq⟩ : ∃ guess : Int, guess = (num.log2 : Int) - den.log2 - 52 := ⟨_, rfl⟩
  obtain ⟨above, below⟩ := log2_quotient_bounds numerator denominator
  have exact_eq : exponentFor num den =
      max (if (num : ℚ) / den < 2 ^ (52 + guess) then guess - 1 else guess) leastExponent := by
    rw [exponentFor, ← guess_eq]
    simp only [quotient_lt_iff denominator]
  rw [exact_eq]
  have narrowed {exponent : Int} (beyond : leastExponent < max exponent leastExponent) :
      max exponent leastExponent = exponent := by omega
  refine ⟨le_max_right _ _, ?_, fun beyond => ?_⟩
  · split_ifs with half
    · apply half.trans_le
      apply two_zpow_le_iff.mpr
      omega
    · apply below.trans_le
      apply two_zpow_le_iff.mpr
      omega
  · split_ifs at beyond ⊢ with half
    · rw [narrowed beyond]
      apply le_trans _ above
      apply two_zpow_le_iff.mpr
      omega
    · rw [narrowed beyond]
      exact not_lt.mp half

end Guess

/-! ## Neighbourhoods -/

/-- A mantissa and an exponent that a positive number is kept in. -/
structure Canonical (mantissa : Nat) (exponent : Int) : Prop where
  positive : 0 < mantissa
  width : mantissa < 2 ^ 53
  least : leastExponent ≤ exponent
  greatest : exponent ≤ greatestExponent
  full : leastExponent < exponent → 2 ^ 52 ≤ mantissa

def Neighbourhood.Contains (hood : Neighbourhood) (q : ℚ) : Prop :=
  (hood.lower * 2 ^ hood.exponent ≤ q ∧ q ≤ hood.upper * 2 ^ hood.exponent) ∧
    (hood.closed = false → q ≠ hood.lower * 2 ^ hood.exponent ∧ q ≠ hood.upper * 2 ^ hood.exponent)

/-- The lower half of a neighbourhood, in places of the mantissa. -/
def reach (mantissa : Nat) (exponent : Int) : ℚ :=
  if mantissa = 2 ^ 52 ∧ leastExponent < exponent then 1 / 4 else 1 / 2

theorem reach_bounds (mantissa : Nat) (exponent : Int) :
    0 < reach mantissa exponent ∧ reach mantissa exponent ≤ 1 / 2 := by
  rw [reach]
  split_ifs <;> norm_num

theorem contains_iff {mantissa : Nat} {exponent : Int} (positive : 0 < mantissa) (q : ℚ) :
    (neighbourhood mantissa exponent).Contains q ↔
      (mantissa - reach mantissa exponent ≤ q / 2 ^ exponent ∧ q / 2 ^ exponent ≤ mantissa + 1 / 2) ∧
        (mantissa % 2 ≠ 0 →
          q / 2 ^ exponent ≠ mantissa - reach mantissa exponent ∧ q / 2 ^ exponent ≠ mantissa + 1 / 2) := by
  have unit : (0 : ℚ) < 2 ^ exponent := by positivity
  have quarter : (2 : ℚ) ^ (exponent - 2) = 2 ^ exponent / 4 := by
    rw [zpow_sub₀ two_ne_zero]
    norm_num
  have lower : ((neighbourhood mantissa exponent).lower : ℚ) * 2 ^ (exponent - 2) =
      (mantissa - reach mantissa exponent) * 2 ^ exponent := by
    have units : (neighbourhood mantissa exponent).lower =
      4 * mantissa - if mantissa = 2 ^ 52 ∧ leastExponent < exponent then 1 else 2 := rfl
    rw [units, quarter, reach]
    by_cases narrow : mantissa = 2 ^ 52 ∧ leastExponent < exponent
    · rw [if_pos narrow, if_pos narrow, Nat.cast_sub (by omega)]
      push_cast
      ring
    · rw [if_neg narrow, if_neg narrow, Nat.cast_sub (by omega)]
      push_cast
      ring
  have upper : ((neighbourhood mantissa exponent).upper : ℚ) * 2 ^ (exponent - 2) =
      (mantissa + 1 / 2) * 2 ^ exponent := by
    rw [quarter, neighbourhood]
    push_cast
    ring
  have closed : (neighbourhood mantissa exponent).closed = false ↔ mantissa % 2 ≠ 0 := by
    simp [neighbourhood]
  have place : (neighbourhood mantissa exponent).exponent = exponent - 2 := rfl
  rw [Neighbourhood.Contains, closed, place, lower, upper, ← le_div_iff₀ unit, ← div_le_iff₀ unit]
  simp only [ne_eq, div_eq_iff unit.ne']

private theorem contains_iff_nearest {mantissa : Nat} {exponent : Int} (positive : 0 < mantissa)
    (wide : ¬(mantissa = 2 ^ 52 ∧ leastExponent < exponent)) (q : ℚ) :
    (neighbourhood mantissa exponent).Contains q ↔ Nearest (q / 2 ^ exponent) mantissa := by
  rw [contains_iff positive, reach, if_neg wide]
  refine ⟨fun ⟨⟨lower, upper⟩, ends⟩ => ⟨lower, upper, fun tie => ?_⟩, fun near => ⟨⟨near.lower, near.upper⟩, ?_⟩⟩
  · by_contra odd
    exact tie.elim (ends odd).1 (ends odd).2
  · exact fun odd => ⟨fun tie => odd (near.even (.inl tie)), fun tie => odd (near.even (.inr tie))⟩

section Places

variable {q : ℚ} {mantissa : Nat} {exponent : Int}

private theorem lt_zpow_iff (width : Nat) : q < 2 ^ (width + exponent) ↔ q / 2 ^ exponent < 2 ^ width := by
  rw [zpow_add₀ two_ne_zero, zpow_natCast, div_lt_iff₀ (by positivity)]

private theorem zpow_le_iff (width : Nat) : 2 ^ (width + exponent) ≤ q ↔ (2 : ℚ) ^ width ≤ q / 2 ^ exponent := by
  rw [zpow_add₀ two_ne_zero, zpow_natCast, le_div_iff₀ (by positivity)]

private theorem div_zpow_succ (q : ℚ) (exponent : Int) : q / 2 ^ (exponent + 1) = q / 2 ^ exponent / 2 := by
  rw [zpow_add_one₀ two_ne_zero, div_div]

section Rounded

variable (fits : Fits q exponent) (near : Nearest (q / 2 ^ exponent) mantissa)
include fits near

private theorem mantissa_le : mantissa ≤ 2 ^ 53 := by
  have upper := (lt_zpow_iff 53).mp fits.upper
  have lower := near.lower
  have below : (mantissa : ℚ) < 2 ^ 53 + 1 := by linarith
  exact Nat.lt_succ_iff.mp (by exact_mod_cast below)

theorem le_mantissa (beyond : leastExponent < exponent) : 2 ^ 52 ≤ mantissa := by
  have lower := (zpow_le_iff 52).mp (fits.lower beyond)
  have upper := near.upper
  have above : (2 : ℚ) ^ 52 < mantissa + 1 := by linarith
  exact Nat.lt_succ_iff.mp (by exact_mod_cast above)

private theorem contains_of_nearest (positive : 0 < mantissa) : (neighbourhood mantissa exponent).Contains q := by
  by_cases narrow : mantissa = 2 ^ 52 ∧ leastExponent < exponent
  · obtain ⟨rfl, beyond⟩ := narrow
    have lower := (zpow_le_iff 52).mp (fits.lower beyond)
    have upper := near.upper
    rw [contains_iff positive, reach, if_pos ⟨rfl, beyond⟩]
    push_cast at upper ⊢
    exact ⟨⟨by linarith, by linarith⟩, fun odd => absurd rfl odd⟩
  · exact (contains_iff_nearest positive narrow q).mpr near

end Rounded

/-- A mantissa that is carried into one more place is a power of two, with a number just below it. -/
theorem contains_of_carried (fits : Fits q exponent) (near : Nearest (q / 2 ^ exponent) (2 ^ 53)) :
    (neighbourhood (2 ^ 52) (exponent + 1)).Contains q := by
  have beyond : leastExponent < exponent + 1 := by
    have := fits.least
    omega
  have lower := near.lower
  have upper := (lt_zpow_iff 53).mp fits.upper
  rw [contains_iff (by decide), reach, if_pos ⟨rfl, beyond⟩, div_zpow_succ]
  push_cast at lower ⊢
  exact ⟨⟨by linarith, by linarith⟩, fun odd => absurd rfl odd⟩

section Inside

variable (canonical : Canonical mantissa exponent) (inside : (neighbourhood mantissa exponent).Contains q)
include canonical inside

/-- Below a power of two the mantissa is carried from the exponent below. -/
theorem carried_of_contains (narrow : mantissa = 2 ^ 52 ∧ leastExponent < exponent)
    (under : q / 2 ^ exponent < 2 ^ 52) :
    ∃ previous, exponent = previous + 1 ∧ Fits q previous ∧ Nearest (q / 2 ^ previous) (2 ^ 53) := by
  obtain ⟨⟨lower, -⟩, -⟩ := (contains_iff canonical.positive q).mp inside
  obtain ⟨rfl, beyond⟩ := narrow
  rw [reach, if_pos ⟨rfl, beyond⟩] at lower
  obtain ⟨previous, rfl⟩ : ∃ previous, exponent = previous + 1 := ⟨exponent - 1, by omega⟩
  rw [div_zpow_succ] at lower under
  push_cast at lower
  refine ⟨previous, rfl, ⟨by omega, (lt_zpow_iff 53).mpr (by linarith), fun _ => ?_⟩, ?_⟩
  · apply (zpow_le_iff 52).mpr
    linarith
  · exact ⟨by push_cast; linarith, by push_cast; linarith, fun _ => by decide⟩

/-- Anywhere else the exponent fits and the mantissa is nearest. -/
theorem nearest_of_contains
    (above : mantissa = 2 ^ 52 ∧ leastExponent < exponent → 2 ^ 52 ≤ q / 2 ^ exponent) :
    Fits q exponent ∧ Nearest (q / 2 ^ exponent) mantissa := by
  obtain ⟨⟨-, upper⟩, -⟩ := (contains_iff canonical.positive q).mp inside
  have width : (mantissa : ℚ) + 1 ≤ 2 ^ 53 := by exact_mod_cast canonical.width
  have near : Nearest (q / 2 ^ exponent) mantissa := by
    by_cases narrow : mantissa = 2 ^ 52 ∧ leastExponent < exponent
    · have low := above narrow
      obtain ⟨rfl, -⟩ := narrow
      exact ⟨by push_cast; linarith, upper, fun _ => by decide⟩
    · exact (contains_iff_nearest canonical.positive narrow q).mp inside
  refine ⟨⟨canonical.least, (lt_zpow_iff 53).mpr (by linarith), fun beyond => (zpow_le_iff 52).mpr ?_⟩, near⟩
  rcases (canonical.full beyond).eq_or_lt with same | more
  · exact above ⟨same.symm, beyond⟩
  · have next : (2 : ℚ) ^ 52 + 1 ≤ mantissa := by exact_mod_cast more
    have low := near.lower
    linarith

end Inside

end Places

/-! ## Reading a quotient -/

/-- A quotient is read as a number of the sign that is given. -/
theorem ofRatio_sign (negative : Bool) (num den : Nat) :
    ofRatio negative num den = .infinite negative ∨
      ∃ mantissa exponent, ofRatio negative num den = .finite negative mantissa exponent := by
  rw [ofRatio]
  dsimp only
  split_ifs
  · exact .inr ⟨_, _, rfl⟩
  · exact .inl rfl
  · exact .inr ⟨_, _, rfl⟩
  · exact .inl rfl
  · exact .inr ⟨_, _, rfl⟩

theorem ofRatio_true (num den : Nat) : ofRatio true num den = (ofRatio false num den).neg := by
  rw [ofRatio, ofRatio]
  dsimp only
  split_ifs <;> rfl

/-- A number that is infinite if its exponent is too great. -/
def finish (negative : Bool) (mantissa : Nat) (exponent : Int) : Binary64 :=
  if greatestExponent < exponent then .infinite negative else .finite negative mantissa exponent

theorem finish_eq_finite_iff {negative sign : Bool} {mantissa kept : Nat} {exponent place : Int} :
    finish negative mantissa exponent = .finite sign kept place ↔
      exponent ≤ greatestExponent ∧ negative = sign ∧ mantissa = kept ∧ exponent = place := by
  rw [finish]
  split_ifs with beyond
  · simp [beyond]
  · simp [not_lt.mp beyond]

section Ratio

variable {negative sign : Bool} {num den mantissa : Nat} {exponent : Int} (numerator : 0 < num)
  (denominator : 0 < den)
include numerator denominator

/-- A quotient is rounded at the exponent that fits; a mantissa that is carried into one more place is halved. -/
theorem ofRatio_eq (negative : Bool) :
    ∃ exponent mantissa, Fits ((num : ℚ) / den) exponent ∧ Nearest ((num : ℚ) / den / 2 ^ exponent) mantissa ∧
      ofRatio negative num den =
        if mantissa = 2 ^ 53 then finish negative (2 ^ 52) (exponent + 1) else finish negative mantissa exponent := by
  refine ⟨exponentFor num den, roundedQuotient num den (exponentFor num den), fits_exponentFor numerator denominator,
    nearest_roundedQuotient num denominator _, ?_⟩
  rw [ofRatio, if_neg numerator.ne']
  simp only [power_eq_pow, finish]
  split_ifs <;> simp_all

/-- A quotient is read as a number that is kept as numbers are, or as zero. -/
theorem canonical_of_ofRatio (read : ofRatio negative num den = .finite sign mantissa exponent)
    (positive : 0 < mantissa) : Canonical mantissa exponent := by
  obtain ⟨place, rounded, fits, near, result⟩ := ofRatio_eq numerator denominator negative
  have width := mantissa_le fits near
  have least := fits.least
  rw [read] at result
  split_ifs at result with carried
  · obtain ⟨greatest, -, rfl, rfl⟩ := finish_eq_finite_iff.mp result.symm
    exact ⟨positive, by decide, by omega, greatest, fun _ => le_rfl⟩
  · obtain ⟨greatest, -, rfl, rfl⟩ := finish_eq_finite_iff.mp result.symm
    exact ⟨positive, by omega, least, greatest, le_mantissa fits near⟩

/-- A quotient is read as a positive number exactly if it lies in its neighbourhood. -/
theorem ofRatio_eq_finite_iff (canonical : Canonical mantissa exponent) :
    ofRatio negative num den = .finite negative mantissa exponent ↔
      (neighbourhood mantissa exponent).Contains ((num : ℚ) / den) := by
  obtain ⟨place, rounded, fits, near, result⟩ := ofRatio_eq numerator denominator negative
  constructor
  · intro read
    rw [read] at result
    split_ifs at result with carried
    · obtain ⟨-, -, rfl, rfl⟩ := finish_eq_finite_iff.mp result.symm
      exact contains_of_carried fits (carried ▸ near)
    · obtain ⟨-, -, rfl, rfl⟩ := finish_eq_finite_iff.mp result.symm
      exact contains_of_nearest fits near canonical.positive
  · intro inside
    by_cases under : (mantissa = 2 ^ 52 ∧ leastExponent < exponent) ∧ (num : ℚ) / den / 2 ^ exponent < 2 ^ 52
    · obtain ⟨previous, rfl, fitsBelow, carried⟩ := carried_of_contains canonical inside under.1 under.2
      obtain rfl := fits.unique fitsBelow
      obtain ⟨⟨rfl, -⟩, -⟩ := under
      rw [result, if_pos (near.unique carried)]
      exact finish_eq_finite_iff.mpr ⟨canonical.greatest, rfl, rfl, rfl⟩
    · obtain ⟨fitsHere, nearHere⟩ := nearest_of_contains canonical inside fun narrow =>
        not_lt.mp fun below => under ⟨narrow, below⟩
      obtain rfl := fits.unique fitsHere
      obtain rfl := near.unique nearHere
      rw [result, if_neg canonical.width.ne]
      exact finish_eq_finite_iff.mpr ⟨canonical.greatest, rfl, rfl, rfl⟩

end Ratio

end Binary64

end LiterateRuby.Number
