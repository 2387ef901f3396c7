import LiterateRuby.Proofs.Number.Digits
import LiterateRuby.Proofs.Number.Rounding

/-! # Reading decimals

A decimal is read as a given floating-point number exactly if it lies in the neighbourhood of that number
(`ofDecimal_eq_finite_iff`); those that positional notation is used for are read as numbers with a full mantissa.
-/

namespace LiterateRuby.Number

/-- The number `digits * 10 ^ scale`. -/
def decimal (digits : Nat) (scale : Int) : ℚ := digits * 10 ^ scale

theorem decimal_le_decimal {a b : Nat} {scale : Int} (order : a ≤ b) : decimal a scale ≤ decimal b scale := by
  rw [decimal, decimal]
  gcongr

theorem decimal_injective {a b : Nat} {scale : Int} (same : decimal a scale = decimal b scale) : a = b := by
  have unit : (10 : ℚ) ^ scale ≠ 0 := by positivity
  exact_mod_cast mul_right_cancel₀ unit same

private theorem decimal_succ (digits : Nat) (scale : Int) :
    decimal (digits + 1) scale = decimal digits scale + 10 ^ scale := by
  rw [decimal, decimal]
  push_cast
  ring

/-- A multiple of a power of ten is one of every power below. -/
theorem decimal_add (digits zeros : Nat) (scale : Int) :
    decimal digits (scale + zeros) = decimal (digits * 10 ^ zeros) scale := by
  rw [decimal, decimal, zpow_add₀ (by norm_num), zpow_natCast]
  push_cast
  ring

theorem decimal_lt_decimal {a b : Nat} (scale : Int) (order : a < b) : decimal a scale < decimal b scale := by
  have step : (0 : ℚ) < 10 ^ scale := by positivity
  have next := @decimal_le_decimal _ _ scale order
  rw [decimal_succ] at next
  linarith

/-- A positive decimal lies between the powers of ten beside its first place. -/
theorem decimal_bounds {digits : Nat} (positive : 0 < digits) (scale : Int) :
    (10 : ℚ) ^ ((natDigits digits).length + scale - 1) ≤ decimal digits scale ∧
      decimal digits scale < 10 ^ ((natDigits digits).length + scale) := by
  have unit : (0 : ℚ) < 10 ^ scale := by positivity
  have ten : (10 : ℚ) ≠ 0 := by norm_num
  obtain ⟨places, length_eq, above, below⟩ := exists_places positive
  have least : (10 : ℚ) ^ places ≤ digits := by exact_mod_cast above
  have most : (digits : ℚ) < 10 ^ (places + 1) := by exact_mod_cast below
  rw [length_eq]
  constructor
  · rw [decimal, show ((places + 1 : Nat) : Int) + scale - 1 = places + scale by push_cast; ring,
      zpow_add₀ ten, zpow_natCast]
    gcongr
  · rw [decimal, zpow_add₀ ten, zpow_natCast]
    gcongr

namespace Binary64

section Decimal

variable {negative sign : Bool} {digits mantissa : Nat} {scale exponent : Int}

private theorem numerator_pos (positive : 0 < digits) (scale : Int) : 0 < digits * power 10 scale.toNat :=
  Nat.mul_pos positive (power_pos (by decide) _)

private theorem denominator_pos (scale : Int) : 0 < power 10 (-scale).toNat := power_pos (by decide) _

private theorem top_div_bottom_decimal (digits : Nat) (scale : Int) :
    ((digits * power 10 scale.toNat : Nat) : ℚ) / (power 10 (-scale).toNat : Nat) = decimal digits scale := by
  have unit := power_div_power 10 scale
  push_cast at unit ⊢
  rw [decimal, ← unit, mul_div_assoc]

private theorem two_zpow_le_ten_zpow (n : Nat) : (2 : ℚ) ^ (3 * n : Int) ≤ 10 ^ (n : Int) := by
  rw [zpow_mul, zpow_natCast, zpow_natCast]
  exact pow_le_pow_left₀ (by positivity) (by norm_num) n

private theorem ten_zpow_le_two_zpow (n : Nat) : (10 : ℚ) ^ (-n : Int) ≤ 2 ^ (-(3 * n) : Int) := by
  rw [zpow_neg, zpow_neg]
  exact inv_anti₀ (by positivity) (two_zpow_le_ten_zpow n)

/-- The numbers in a neighbourhood are far from those that are not computed. -/
theorem bounds_of_contains (canonical : Canonical mantissa exponent) {q : ℚ}
    (inside : (neighbourhood mantissa exponent).Contains q) : 2 ^ (-1075 : Int) ≤ q ∧ q ≤ 2 ^ (1024 : Int) := by
  obtain ⟨⟨lower, upper⟩, -⟩ := (contains_iff canonical.positive q).mp inside
  have unit : (0 : ℚ) < 2 ^ exponent := by positivity
  have narrow := (reach_bounds mantissa exponent).2
  have least : (1 : ℚ) ≤ mantissa := by exact_mod_cast canonical.positive
  have most : (mantissa : ℚ) + 1 ≤ 2 ^ 53 := by exact_mod_cast canonical.width
  have low : (1 / 2 : ℚ) ≤ q / 2 ^ exponent := by linarith
  have high : q / 2 ^ exponent ≤ 2 ^ 53 := by linarith
  rw [le_div_iff₀ unit] at low
  rw [div_le_iff₀ unit] at high
  constructor
  · calc (2 : ℚ) ^ (-1075 : Int) = 1 / 2 * 2 ^ leastExponent := by
          rw [show (-1075 : Int) = leastExponent - 1 from rfl, zpow_sub_one₀ two_ne_zero]
          ring
      _ ≤ 1 / 2 * 2 ^ exponent := by
          have := two_zpow_le_iff.mpr canonical.least
          gcongr
      _ ≤ q := low
  · calc q ≤ 2 ^ 53 * 2 ^ exponent := high
      _ ≤ 2 ^ 53 * 2 ^ greatestExponent := by
          have := two_zpow_le_iff.mpr canonical.greatest
          gcongr
      _ = 2 ^ (1024 : Int) := by
          rw [← zpow_natCast, ← zpow_add₀ two_ne_zero]
          rfl

private theorem ofDecimal_eq_ofRatio (positive : 0 < digits) (low : (2 : ℚ) ^ (-1075 : Int) ≤ decimal digits scale)
    (high : decimal digits scale ≤ 2 ^ (1024 : Int)) :
    ofDecimal negative digits scale =
      ofRatio negative (digits * power 10 scale.toNat) (power 10 (-scale).toNat) := by
  obtain ⟨least, most⟩ := decimal_bounds positive scale
  have few : ¬400 < ((natDigits digits).length : Int) + scale := by
    intro many
    have above : (10 : ℚ) ^ (400 : Int) ≤ 10 ^ ((natDigits digits).length + scale - 1) :=
      zpow_le_zpow_right₀ (by norm_num) (by omega)
    have beyond : (2 : ℚ) ^ (1024 : Int) < 10 ^ (400 : Int) :=
      (two_zpow_lt_iff.mpr (by decide)).trans_le (two_zpow_le_ten_zpow 400)
    exact absurd (beyond.trans_le (above.trans (least.trans high))) (lt_irrefl _)
  have enough : ¬((natDigits digits).length : Int) + scale < -400 := by
    intro many
    have below : (10 : ℚ) ^ ((natDigits digits).length + scale) ≤ 10 ^ (-400 : Int) :=
      zpow_le_zpow_right₀ (by norm_num) (by omega)
    have beyond : (10 : ℚ) ^ (-400 : Int) < 2 ^ (-1075 : Int) :=
      (ten_zpow_le_two_zpow 400).trans_lt (two_zpow_lt_iff.mpr (by decide))
    exact absurd (((low.trans_lt most).trans_le below).trans beyond) (lt_irrefl _)
  rw [ofDecimal]
  exact (if_neg positive.ne').trans ((if_neg few).trans (if_neg enough))

theorem ofDecimal_cases (read : ofDecimal negative digits scale = .finite sign mantissa exponent)
    (positive : 0 < mantissa) :
    0 < digits ∧ ofRatio negative (digits * power 10 scale.toNat) (power 10 (-scale).toNat) =
      .finite sign mantissa exponent := by
  rw [ofDecimal] at read
  have nonzero : zero negative ≠ .finite sign mantissa exponent := by
    rintro ⟨⟩
    exact lt_irrefl 0 positive
  split_ifs at read with zero
  · exact absurd read nonzero
  · exact absurd read nonzero
  · exact ⟨Nat.pos_of_ne_zero zero, read⟩

/-- A decimal is read as a number of its sign. -/
theorem ofDecimal_sign (negative : Bool) (digits : Nat) (scale : Int) :
    ofDecimal negative digits scale = .infinite negative ∨
      ∃ mantissa exponent, ofDecimal negative digits scale = .finite negative mantissa exponent := by
  rw [ofDecimal]
  split_ifs
  · exact .inr ⟨_, _, rfl⟩
  · exact .inl rfl
  · exact .inr ⟨_, _, rfl⟩
  · exact ofRatio_sign negative _ _

/-- With a minus sign a decimal is read as the opposite number. -/
theorem ofDecimal_true (digits : Nat) (scale : Int) :
    ofDecimal true digits scale = (ofDecimal false digits scale).neg := by
  rw [ofDecimal, ofDecimal]
  split_ifs
  · rfl
  · rfl
  · rfl
  · exact ofRatio_true _ _

theorem canonical_of_ofDecimal (read : ofDecimal negative digits scale = .finite sign mantissa exponent)
    (positive : 0 < mantissa) : Canonical mantissa exponent := by
  obtain ⟨given, read⟩ := ofDecimal_cases read positive
  exact canonical_of_ofRatio (numerator_pos given scale) (denominator_pos scale) read positive

/-- A decimal is read as a positive number exactly if it lies in its neighbourhood. -/
theorem ofDecimal_eq_finite_iff (canonical : Canonical mantissa exponent) (positive : 0 < digits) :
    ofDecimal negative digits scale = .finite negative mantissa exponent ↔
      (neighbourhood mantissa exponent).Contains (decimal digits scale) := by
  have ratio := @ofRatio_eq_finite_iff negative _ _ _ _ (numerator_pos positive scale) (denominator_pos scale) canonical
  rw [top_div_bottom_decimal] at ratio
  constructor
  · intro read
    exact ratio.mp (ofDecimal_cases read canonical.positive).2
  · intro inside
    obtain ⟨low, high⟩ := bounds_of_contains canonical inside
    rw [ofDecimal_eq_ofRatio positive low high]
    exact ratio.mpr inside

/-- A decimal between the bounds of positional notation is read as a number with a full mantissa. -/
theorem ofDecimal_of_between (positive : 0 < digits) (low : (10 : ℚ) ^ (-4 : Int) ≤ decimal digits scale)
    (high : decimal digits scale < 10 ^ (16 : Int)) :
    ∃ mantissa exponent, Canonical mantissa exponent ∧ 2 ^ 52 ≤ mantissa ∧
      ofDecimal negative digits scale = .finite negative mantissa exponent := by
  have lowest : (2 : ℚ) ^ (-14 : Int) ≤ 10 ^ (-4 : Int) := by norm_num
  have highest : (10 : ℚ) ^ (16 : Int) < 2 ^ (54 : Int) := by norm_num
  have computed := @ofDecimal_eq_ofRatio negative digits scale positive
    (((two_zpow_le_iff.mpr (by decide)).trans lowest).trans low)
    (high.le.trans (highest.le.trans (two_zpow_le_iff.mpr (by decide))))
  obtain ⟨place, rounded, fits, near, result⟩ :=
    ofRatio_eq (numerator_pos positive scale) (denominator_pos scale) negative
  have full := le_mantissa fits near
  rw [top_div_bottom_decimal] at fits
  have beyond : leastExponent < place := by
    have above := two_zpow_lt_iff.mp ((lowest.trans low).trans_lt fits.upper)
    rw [leastExponent]
    omega
  have below := two_zpow_lt_iff.mp ((fits.lower beyond).trans_lt (high.trans highest))
  obtain ⟨mantissa, exponent, few, full, read⟩ : ∃ mantissa exponent, exponent ≤ place + 1 ∧ 2 ^ 52 ≤ mantissa ∧
      ofDecimal negative digits scale = finish negative mantissa exponent := by
    rw [computed, result]
    split_ifs
    · exact ⟨_, _, le_rfl, le_rfl, rfl⟩
    · exact ⟨_, _, by omega, full beyond, rfl⟩
  have finite : ofDecimal negative digits scale = .finite negative mantissa exponent := by
    rw [read]
    refine finish_eq_finite_iff.mpr ⟨?_, rfl, rfl, rfl⟩
    rw [greatestExponent]
    omega
  exact ⟨mantissa, exponent, canonical_of_ofDecimal finite (lt_of_lt_of_le (by decide) full), full, finite⟩

end Decimal

end Binary64

end LiterateRuby.Number
