import LiterateRuby.Proofs.Number.Grid
import Mathlib.Data.Nat.Factorization.Basic
import Mathlib.Data.Rat.Floor

/-! # The shortest decimal of a number

The grids of decimals are searched from coarse to fine for one that has a point in the neighbourhood of a number.
For a number with a full mantissa the point that is taken, without its trailing zeros, is the only one that lies on
the coarsest grid with a point and is nearest to the number on it (`shortest_stripped`, `Shortest.unique`).
-/

namespace LiterateRuby.Number

namespace Binary64

/-! ## The first grid with a point -/

section Point

variable {num den : Nat} (numerator : 0 < num) (denominator : 0 < den)
include numerator denominator

omit numerator in
private theorem decimalPoint_of_le (order : den ≤ num) :
    (10 : ℚ) ^ (decimalPoint num den - 1) ≤ (num : ℚ) / den ∧ (num : ℚ) / den < 10 ^ decimalPoint num den := by
  have scaled : (0 : ℚ) < den := by exact_mod_cast denominator
  obtain ⟨places, length_eq, least, most⟩ := exists_places (Nat.div_pos order denominator)
  have low := (Nat.le_div_iff_mul_le denominator).mp least
  have high := (Nat.div_lt_iff_lt_mul denominator).mp most
  have point : decimalPoint num den = places + 1 := by
    rw [decimalPoint, if_pos order]
    exact_mod_cast length_eq
  rw [point, add_sub_cancel_right, le_div_iff₀ scaled, div_lt_iff₀ scaled]
  exact ⟨by exact_mod_cast low, by exact_mod_cast high⟩

/-- Below one the places of the inverse are counted, which is a power of ten only from above. -/
theorem decimalPoint_of_lt (order : num < den) :
    (10 : ℚ) ^ (decimalPoint num den - 1) ≤ (num : ℚ) / den ∧ (num : ℚ) / den < 10 ^ decimalPoint num den := by
  have scaled : (0 : ℚ) < den := by exact_mod_cast denominator
  obtain ⟨places, length_eq, least, most⟩ := exists_places (Nat.div_pos (Nat.le_sub_one_of_lt order) numerator)
  have low := (Nat.le_div_iff_mul_le numerator).mp least
  have high := (Nat.div_lt_iff_lt_mul numerator).mp most
  have point : decimalPoint num den = -(places : Int) := by
    have length : ((Nat.toDigits 10 ((den - 1) / num)).length : Int) = places + 1 := by exact_mod_cast length_eq
    rw [decimalPoint, if_neg (Nat.not_le.mpr order)]
    dsimp only
    omega
  have previous : decimalPoint num den - 1 = -((places + 1 : Nat) : Int) := by omega
  have reaches : (den : ℚ) ≤ 10 ^ (places + 1) * num := by
    have enough : den ≤ 10 ^ (places + 1) * num := by omega
    exact_mod_cast enough
  have exceeds : (10 : ℚ) ^ places * num < den := by
    have fewer : 10 ^ places * num < den := by omega
    exact_mod_cast fewer
  have whole : (0 : ℚ) < 10 ^ (places + 1) := by positivity
  have part : (0 : ℚ) < 10 ^ places := by positivity
  rw [previous, point, zpow_neg, zpow_neg, zpow_natCast, zpow_natCast, inv_eq_one_div, inv_eq_one_div,
    div_le_div_iff₀ whole scaled, div_lt_div_iff₀ scaled part]
  exact ⟨by linarith, by linarith⟩

/-- A positive quotient lies between the powers of ten beside its decimal point. -/
theorem decimalPoint_bounds :
    (10 : ℚ) ^ (decimalPoint num den - 1) ≤ (num : ℚ) / den ∧ (num : ℚ) / den < 10 ^ decimalPoint num den := by
  rcases Nat.lt_or_ge num den with below | above
  · exact decimalPoint_of_lt numerator denominator below
  · exact decimalPoint_of_le denominator above

end Point

/-- The search stops at the first grid that has a point. -/
theorem shortestFrom_spec {hood : Neighbourhood} {point : Int} {fuel places : Nat}
    (found : ∃ more < fuel, gridPoint? hood (point - (places + more : Nat)) ≠ none) :
    ∃ more digits, shortestFrom hood point fuel places = (digits, point - (places + more : Nat)) ∧
      gridPoint? hood (point - (places + more : Nat)) = some digits ∧
      ∀ fewer < more, gridPoint? hood (point - (places + fewer : Nat)) = none := by
  induction fuel generalizing places with
  | zero =>
    obtain ⟨more, beyond, -⟩ := found
    omega
  | succ fuel ih =>
    rw [shortestFrom]
    cases here : gridPoint? hood (point - places) with
    | some digits => exact ⟨0, digits, by simp, by simpa using here, by omega⟩
    | none =>
      have later : ∃ more < fuel, gridPoint? hood (point - (places + 1 + more : Nat)) ≠ none := by
        obtain ⟨more, within, there⟩ := found
        cases more with
        | zero => exact absurd here there
        | succ more =>
          refine ⟨more, by omega, ?_⟩
          rwa [Nat.add_assoc, Nat.add_comm 1]
      obtain ⟨more, digits, result, point, missing⟩ := ih later
      rw [Nat.add_assoc, Nat.add_comm 1] at result point
      refine ⟨more + 1, digits, by simpa [here] using result, point, fun fewer before => ?_⟩
      cases fewer with
      | zero => exact here
      | succ fewer =>
        have earlier := missing fewer (by omega)
        rwa [Nat.add_assoc, Nat.add_comm 1] at earlier

section Search

variable {mantissa : Nat} {exponent : Int}

/-- The places of the decimal point that the search starts from. -/
def point (mantissa : Nat) (exponent : Int) : Int :=
  decimalPoint ((neighbourhood mantissa exponent).value * power 2 (neighbourhood mantissa exponent).exponent.toNat)
    (power 2 (-(neighbourhood mantissa exponent).exponent).toNat)

private theorem point_bounds (positive : 0 < mantissa) :
    (10 : ℚ) ^ (point mantissa exponent - 1) ≤ magnitude mantissa exponent ∧
      magnitude mantissa exponent < 10 ^ point mantissa exponent := by
  have value : 0 < (neighbourhood mantissa exponent).value := Nat.mul_pos (by decide) positive
  have bounds := decimalPoint_bounds
    (Nat.mul_pos value (power_pos Nat.two_pos (neighbourhood mantissa exponent).exponent.toNat))
    (power_pos Nat.two_pos (-(neighbourhood mantissa exponent).exponent).toNat)
  have ratio := power_div_power 2 (neighbourhood mantissa exponent).exponent
  rw [Nat.cast_mul, mul_div_assoc, ratio, Nat.cast_ofNat, value_neighbourhood] at bounds
  exact bounds

/-- A grid has a point at most one step above every number. -/
theorem exists_grid_above {v step : ℚ} (positive : 0 < step) (low : 0 ≤ v) :
    ∃ digits : Nat, v ≤ digits * step ∧ digits * step ≤ v + step := by
  have above := Nat.lt_floor_add_one (v / step)
  have below := Nat.floor_le (div_nonneg low positive.le)
  rw [div_lt_iff₀ positive] at above
  rw [le_div_iff₀ positive] at below
  refine ⟨⌊v / step⌋₊ + 1, ?_, ?_⟩
  · rw [Nat.cast_add_one]
    exact above.le
  · rw [Nat.cast_add_one]
    linarith

/-- At eighteen places the grid is fine enough to have a point in every neighbourhood. -/
theorem exists_contains (canonical : Canonical mantissa exponent) :
    ∃ digits, (neighbourhood mantissa exponent).Contains (decimal digits (point mantissa exponent - 18)) := by
  obtain ⟨low, -⟩ := @point_bounds mantissa exponent canonical.positive
  have step : (0 : ℚ) < 10 ^ (point mantissa exponent - 18) := by positivity
  have unit : (0 : ℚ) < 2 ^ exponent := by positivity
  have fine : (10 : ℚ) ^ (point mantissa exponent - 18) < 2 ^ exponent / 2 := by
    have whole : (10 : ℚ) ^ (point mantissa exponent - 1) = 10 ^ (point mantissa exponent - 18) * 10 ^ 17 := by
      rw [← zpow_natCast, ← zpow_add₀ (by norm_num)]
      congr 1
      push_cast
      ring
    have width : (mantissa : ℚ) + 1 ≤ 2 ^ 53 := by exact_mod_cast canonical.width
    have most : (mantissa : ℚ) * 2 ^ exponent ≤ 2 ^ 53 * 2 ^ exponent := by
      apply mul_le_mul_of_nonneg_right _ unit.le
      linarith
    rw [whole, magnitude] at low
    linarith
  obtain ⟨digits, above, below⟩ := exists_grid_above step (magnitude_pos canonical.positive).le
  refine ⟨digits, contains_of_above canonical.positive above ?_⟩
  exact lt_of_le_of_lt below (by linarith)

/-- The point that is found is the closest one of its grid, and no coarser grid that the search passes has one. -/
theorem shortest_closest (canonical : Canonical mantissa exponent) :
    ∃ digits scale, shortest mantissa exponent = (digits, scale) ∧ Closest mantissa exponent scale digits ∧
      scale < point mantissa exponent ∧
      ∀ coarser, scale < coarser → coarser < point mantissa exponent →
        ∀ other, ¬(neighbourhood mantissa exponent).Contains (decimal other coarser) := by
  have spec := gridPoint?_spec canonical.positive exponent
  have fine : gridPoint? (neighbourhood mantissa exponent) (point mantissa exponent - (1 + 17 : Nat)) ≠ none := by
    intro absent
    obtain ⟨digits, inside⟩ := exists_contains canonical
    have outside := spec (point mantissa exponent - (1 + 17 : Nat))
    rw [absent] at outside
    exact outside digits inside
  obtain ⟨more, digits, result, found, missing⟩ :=
    @shortestFrom_spec (neighbourhood mantissa exponent) (point mantissa exponent) 18 1 ⟨17, by decide, fine⟩
  have closest := spec (point mantissa exponent - (1 + more : Nat))
  rw [found] at closest
  refine ⟨digits, _, result, closest, by omega, fun coarser above below other inside => ?_⟩
  obtain ⟨fewer, rfl⟩ : ∃ fewer : Nat, coarser = point mantissa exponent - (1 + fewer : Nat) :=
    ⟨(point mantissa exponent - coarser - 1).toNat, by omega⟩
  have outside := spec (point mantissa exponent - (1 + fewer : Nat))
  rw [missing fewer (by omega)] at outside
  exact outside other inside

end Search

/-! ## The shortest decimal -/

/-- Between two numbers that are as far from a third one every number is nearer to it. -/
theorem abs_sub_lt_of_between {a b c v : ℚ} (left : a < b) (right : b < c) (tie : |a - v| = |c - v|) :
    |b - v| < |a - v| := by
  have centre : v - a = c - v := by
    rcases abs_eq_abs.mp tie with same | opposite <;> linarith
  have inside : |a - v| = v - a := by
    rw [abs_sub_comm]
    apply abs_of_nonneg
    linarith
  rw [inside, abs_lt]
  exact ⟨by linarith, by linarith⟩

section Unique

variable {mantissa : Nat} {exponent scale : Int} {digits other : Nat}

/-- Another point that is as near is the next one or the one before. -/
theorem Closest.adjacent (closest : Closest mantissa exponent scale digits)
    (found : (neighbourhood mantissa exponent).Contains (decimal other scale))
    (tie : |decimal digits scale - magnitude mantissa exponent| =
      |decimal other scale - magnitude mantissa exponent|) : other ≤ digits + 1 ∧ digits ≤ other + 1 := by
  constructor
  · by_contra far
    have left := decimal_lt_decimal scale (Nat.lt_succ_self digits)
    have right := decimal_lt_decimal scale (Nat.lt_of_not_le far)
    have middle := closest.nearest (digits + 1) (closest.inside.between found left.le right.le)
    exact absurd middle (not_le.mpr (abs_sub_lt_of_between left right tie))
  · by_contra far
    have left := decimal_lt_decimal scale (Nat.lt_succ_self other)
    have right := decimal_lt_decimal scale (Nat.lt_of_not_le far)
    have middle := closest.nearest (other + 1) (found.between closest.inside left.le right.le)
    rw [tie] at middle
    exact absurd middle (not_le.mpr (abs_sub_lt_of_between left right tie.symm))

private theorem Closest.unique (left : Closest mantissa exponent scale digits)
    (right : Closest mantissa exponent scale other) :
    digits = other := by
  have tie := le_antisymm (left.nearest other right.inside) (right.nearest digits left.inside)
  obtain ⟨most, least⟩ := left.adjacent right.inside tie
  rcases left.even other right.inside tie with same | evenLeft
  · exact same.symm
  · rcases right.even digits left.inside tie.symm with same | evenRight
    · exact same
    · omega

/-- The closest point of a grid that lies on a coarser one is the closest of that one. -/
theorem Closest.coarser {zeros : Nat} (closest : Closest mantissa exponent scale (digits * 10 ^ zeros)) :
    Closest mantissa exponent (scale + zeros) digits := by
  refine ⟨?_, fun other found => ?_, fun other found tie => ?_⟩
  · rw [decimal_add]
    exact closest.inside
  · rw [decimal_add] at found
    rw [decimal_add, decimal_add]
    exact closest.nearest _ found
  · rw [decimal_add] at found
    rw [decimal_add, decimal_add] at tie
    rcases zeros with _ | zeros
    · simpa using closest.even _ found tie
    · obtain ⟨most, least⟩ := closest.adjacent found tie
      rw [Nat.pow_succ, ← Nat.mul_assoc, ← Nat.mul_assoc] at most least
      have same : other * 10 ^ zeros = digits * 10 ^ zeros := by omega
      exact .inl (Nat.eq_of_mul_eq_mul_right (by positivity) same)

/-- A decimal without trailing zeros that is the closest one on its grid, the coarsest one with a point in the
neighbourhood of a number. -/
structure Shortest (mantissa : Nat) (exponent : Int) (digits : Nat) (scale : Int) : Prop where
  stripped : digits % 10 ≠ 0
  closest : Closest mantissa exponent scale digits
  coarsest : ∀ coarser, scale < coarser → ∀ other, ¬(neighbourhood mantissa exponent).Contains (decimal other coarser)

theorem Shortest.positive (shortest : Shortest mantissa exponent digits scale) : 0 < digits := by
  have := shortest.stripped
  omega

theorem Shortest.unique {place : Int} (left : Shortest mantissa exponent digits scale)
    (right : Shortest mantissa exponent other place) : digits = other ∧ scale = place := by
  have same : scale = place := by
    rcases lt_trichotomy scale place with less | same | greater
    · exact absurd right.closest.inside (left.coarsest place less other)
    · exact same
    · exact absurd left.closest.inside (right.coarsest scale greater digits)
  subst same
  exact ⟨left.closest.unique right.closest, rfl⟩

end Unique

/-- The numbers in the neighbourhood of a number with a full mantissa are near to it. -/
theorem near_of_contains {mantissa : Nat} {exponent : Int} (full : 2 ^ 52 ≤ mantissa) {q : ℚ}
    (inside : (neighbourhood mantissa exponent).Contains q) :
    magnitude mantissa exponent * (99 / 100) ≤ q ∧ q ≤ magnitude mantissa exponent * (101 / 100) := by
  have unit : (0 : ℚ) < 2 ^ exponent := by positivity
  have many : (100 : ℚ) ≤ mantissa := by
    have more : 100 ≤ mantissa := le_trans (by decide) full
    exact_mod_cast more
  have narrow := (reach_bounds mantissa exponent).2
  obtain ⟨⟨lower, upper⟩, -⟩ := (contains_iff (lt_of_lt_of_le (by decide) full) q).mp inside
  have low : (mantissa : ℚ) * (99 / 100) ≤ q / 2 ^ exponent := by linarith
  have high : q / 2 ^ exponent ≤ mantissa * (101 / 100) := by linarith
  rw [le_div_iff₀ unit] at low
  rw [div_le_iff₀ unit] at high
  rw [magnitude]
  exact ⟨by linarith, by linarith⟩

/-- If a number has a point of a power of ten above it in its neighbourhood, the point that is found is that power:
on the grid below there are none between nine and eleven tenths of it. -/
theorem digits_of_above {mantissa digits other : Nat} {exponent scale coarser : Int} (full : 2 ^ 52 ≤ mantissa)
    (point : magnitude mantissa exponent < 10 ^ (scale + 1))
    (inside : (neighbourhood mantissa exponent).Contains (decimal digits scale)) (above : scale < coarser)
    (found : (neighbourhood mantissa exponent).Contains (decimal other coarser)) : digits = 10 ∧ coarser = scale + 1 := by
  have positive : 0 < mantissa := lt_of_lt_of_le (by decide) full
  obtain ⟨low, high⟩ := near_of_contains full inside
  obtain ⟨-, most⟩ := near_of_contains full found
  have step : (0 : ℚ) < 10 ^ scale := by positivity
  have reaches : (10 : ℚ) ^ coarser ≤ decimal other coarser := by
    have least := @decimal_le_decimal 1 other coarser (digits_pos_of_contains positive found)
    rwa [decimal, Nat.cast_one, one_mul] at least
  have next : (10 : ℚ) ^ (scale + 1) = 10 ^ scale * 10 := zpow_add_one₀ (by norm_num) scale
  rw [next] at point
  have only : coarser = scale + 1 := by
    by_contra far
    have later : (10 : ℚ) ^ (scale + 1 + 1) ≤ 10 ^ coarser := zpow_le_zpow_right₀ (by norm_num) (by omega)
    rw [zpow_add_one₀ (by norm_num), next] at later
    linarith
  subst only
  rw [next] at reaches
  rw [decimal] at low high
  have more : (9 : ℚ) < digits := by
    rw [← mul_lt_mul_iff_left₀ step]
    linarith
  have fewer : (digits : ℚ) < 11 := by
    rw [← mul_lt_mul_iff_left₀ step]
    linarith
  have lower : 9 < digits := by exact_mod_cast more
  have upper : digits < 11 := by exact_mod_cast fewer
  exact ⟨by omega, rfl⟩

/-- The point that is found, without its trailing zeros, is the shortest decimal. -/
theorem shortest_stripped {mantissa : Nat} {exponent : Int} (canonical : Canonical mantissa exponent)
    (full : 2 ^ 52 ≤ mantissa) :
    ∃ (digits zeros : Nat) (scale : Int), shortest mantissa exponent = (digits * 10 ^ zeros, scale) ∧
      Shortest mantissa exponent digits (scale + zeros) := by
  obtain ⟨whole, scale, result, closest, below, missing⟩ := shortest_closest canonical
  have given : whole ≠ 0 := (digits_pos_of_contains canonical.positive closest.inside).ne'
  obtain ⟨zeros, digits, stripped, rfl⟩ := Nat.exists_eq_pow_mul_and_not_dvd given 10 (by decide)
  rw [Nat.mul_comm] at result closest
  have nonzero : digits % 10 ≠ 0 := fun missing => stripped (Nat.dvd_of_mod_eq_zero missing)
  refine ⟨digits, zeros, scale, result, nonzero, closest.coarser, fun coarser above other found => ?_⟩
  rcases lt_or_ge coarser (point mantissa exponent) with passed | beyond
  · exact missing coarser (by omega) passed other found
  · -- the point is one of the first grid, too
    obtain ⟨more, rfl⟩ : ∃ more : Nat, coarser = point mantissa exponent - 1 + more :=
      ⟨(coarser - point mantissa exponent + 1).toNat, by omega⟩
    have first : scale = point mantissa exponent - 1 := by
      by_contra later
      apply missing (point mantissa exponent - 1) (by omega) (by omega) (other * 10 ^ more)
      rw [← decimal_add]
      exact found
    obtain ⟨-, high⟩ := @point_bounds mantissa exponent canonical.positive
    have ten := digits_of_above full (by rw [first, sub_add_cancel]; exact high) closest.inside (by omega) found
    rcases zeros with _ | zeros
    · omega
    · omega

end Binary64

end LiterateRuby.Number
