import LiterateRuby.Proofs.Number.Reading

/-! # Decimals near a number

The multiples of a power of ten are a grid. Of the points of a grid in the neighbourhood of a number, the one that is
taken is nearest to the number, and even if another one is as near (`gridPoint?_spec`).
-/

namespace LiterateRuby.Number

namespace Binary64

/-! ## Neighbourhoods are intervals around their numbers -/

/-- The number that a mantissa and an exponent stand for. -/
def magnitude (mantissa : Nat) (exponent : Int) : ℚ := mantissa * 2 ^ exponent

theorem Neighbourhood.Contains.between {hood : Neighbourhood} {a b q : ℚ} (low : hood.Contains a)
    (high : hood.Contains b) (above : a ≤ q) (below : q ≤ b) : hood.Contains q := by
  obtain ⟨⟨lower, -⟩, openLower⟩ := low
  obtain ⟨⟨-, upper⟩, openUpper⟩ := high
  refine ⟨⟨lower.trans above, below.trans upper⟩, fun opened => ⟨fun same => ?_, fun same => ?_⟩⟩
  · exact (openLower opened).1 (le_antisymm (same ▸ above) lower)
  · exact (openUpper opened).2 (le_antisymm upper (same ▸ below))

section Around

variable {mantissa : Nat} {exponent : Int} (positive : 0 < mantissa)
include positive

private theorem contains_magnitude : (neighbourhood mantissa exponent).Contains (magnitude mantissa exponent) := by
  have unit : (2 : ℚ) ^ exponent ≠ 0 := by positivity
  have wide := (reach_bounds mantissa exponent).1
  rw [contains_iff positive, magnitude, mul_div_cancel_right₀ _ unit]
  refine ⟨⟨by linarith, by linarith⟩, fun _ => ⟨fun same => ?_, fun same => ?_⟩⟩ <;> linarith

private theorem pos_of_contains {q : ℚ} (inside : (neighbourhood mantissa exponent).Contains q) : 0 < q := by
  have unit : (0 : ℚ) < 2 ^ exponent := by positivity
  have narrow := (reach_bounds mantissa exponent).2
  have least : (1 : ℚ) ≤ mantissa := by exact_mod_cast positive
  obtain ⟨⟨lower, -⟩, -⟩ := (contains_iff positive q).mp inside
  have above : 0 < q / 2 ^ exponent := by linarith
  exact (div_pos_iff_of_pos_right unit).mp above

theorem digits_pos_of_contains {digits : Nat} {scale : Int}
    (inside : (neighbourhood mantissa exponent).Contains (decimal digits scale)) : 0 < digits := by
  rw [Nat.pos_iff_ne_zero]
  rintro rfl
  simpa [decimal] using pos_of_contains positive inside

theorem magnitude_pos : 0 < magnitude mantissa exponent := by
  rw [magnitude]
  positivity

/-- What lies less than half a place above a number is in its neighbourhood. -/
theorem contains_of_above {q : ℚ} (low : magnitude mantissa exponent ≤ q)
    (high : q < magnitude mantissa exponent + 2 ^ exponent / 2) : (neighbourhood mantissa exponent).Contains q := by
  have unit : (0 : ℚ) < 2 ^ exponent := by positivity
  have wide := (reach_bounds mantissa exponent).1
  have least : (mantissa : ℚ) ≤ q / 2 ^ exponent := (le_div_iff₀ unit).mpr low
  have most : q / 2 ^ exponent < mantissa + 1 / 2 := by
    rw [div_lt_iff₀ unit]
    rw [magnitude] at high
    linarith
  rw [contains_iff positive]
  refine ⟨⟨by linarith, most.le⟩, fun _ => ⟨?_, most.ne⟩⟩
  apply ne_of_gt
  linarith

end Around

/-! ## The nearest point of a grid -/

/-- A point of a grid that lies in the neighbourhood of a number, nearest to it among those that do, and even if
another one is as near. -/
structure Closest (mantissa : Nat) (exponent scale : Int) (digits : Nat) : Prop where
  inside : (neighbourhood mantissa exponent).Contains (decimal digits scale)
  nearest : ∀ other, (neighbourhood mantissa exponent).Contains (decimal other scale) →
    |decimal digits scale - magnitude mantissa exponent| ≤ |decimal other scale - magnitude mantissa exponent|
  even : ∀ other, (neighbourhood mantissa exponent).Contains (decimal other scale) →
    |decimal digits scale - magnitude mantissa exponent| = |decimal other scale - magnitude mantissa exponent| →
    other = digits ∨ digits % 2 = 0

section Beside

variable {mantissa : Nat} {exponent scale : Int} {below : Nat}
  (low : decimal below scale ≤ magnitude mantissa exponent)
  (high : magnitude mantissa exponent < decimal (below + 1) scale)

include low in
private theorem distance_of_le {other : Nat} (under : other ≤ below) :
    |decimal other scale - magnitude mantissa exponent| = magnitude mantissa exponent - decimal other scale := by
  have order := @decimal_le_decimal _ _ scale under
  rw [abs_sub_comm]
  apply abs_of_nonneg
  linarith

include high in
private theorem distance_of_gt {other : Nat} (beyond : below < other) :
    |decimal other scale - magnitude mantissa exponent| = decimal other scale - magnitude mantissa exponent := by
  have order := @decimal_le_decimal _ _ scale beyond
  apply abs_of_nonneg
  linarith

include low high

private theorem closest_below (inside : (neighbourhood mantissa exponent).Contains (decimal below scale))
    (nearer : (neighbourhood mantissa exponent).Contains (decimal (below + 1) scale) →
      magnitude mantissa exponent - decimal below scale ≤ decimal (below + 1) scale - magnitude mantissa exponent)
    (even : (neighbourhood mantissa exponent).Contains (decimal (below + 1) scale) →
      magnitude mantissa exponent - decimal below scale = decimal (below + 1) scale - magnitude mantissa exponent →
      below % 2 = 0) : Closest mantissa exponent scale below := by
  have here := distance_of_le low (Nat.le_refl below)
  refine ⟨inside, fun other found => ?_, fun other found tie => ?_⟩
  · rcases le_or_gt other below with under | beyond
    · have order := @decimal_le_decimal _ _ scale under
      rw [here, distance_of_le low under]
      linarith
    · have order := @decimal_le_decimal _ _ scale beyond
      have next := nearer (inside.between found (by linarith) order)
      rw [here, distance_of_gt high beyond]
      linarith
  · rcases le_or_gt other below with under | beyond
    · rw [here, distance_of_le low under] at tie
      exact .inl (decimal_injective (by linarith))
    · have order := @decimal_le_decimal _ _ scale beyond
      have reached := inside.between found (by linarith) order
      have next := nearer reached
      rw [here, distance_of_gt high beyond] at tie
      exact .inr (even reached (by linarith))

private theorem closest_above (inside : (neighbourhood mantissa exponent).Contains (decimal (below + 1) scale))
    (nearer : (neighbourhood mantissa exponent).Contains (decimal below scale) →
      decimal (below + 1) scale - magnitude mantissa exponent ≤ magnitude mantissa exponent - decimal below scale)
    (even : (neighbourhood mantissa exponent).Contains (decimal below scale) →
      decimal (below + 1) scale - magnitude mantissa exponent = magnitude mantissa exponent - decimal below scale →
      (below + 1) % 2 = 0) : Closest mantissa exponent scale (below + 1) := by
  have here := distance_of_gt high (Nat.lt_succ_self below)
  refine ⟨inside, fun other found => ?_, fun other found tie => ?_⟩
  · rcases le_or_gt other below with under | beyond
    · have order := @decimal_le_decimal _ _ scale under
      have next := nearer (found.between inside order (by linarith))
      rw [here, distance_of_le low under]
      linarith
    · have order := @decimal_le_decimal _ _ scale beyond
      rw [here, distance_of_gt high beyond]
      linarith
  · rcases le_or_gt other below with under | beyond
    · have order := @decimal_le_decimal _ _ scale under
      have reached := found.between inside order (by linarith)
      have next := nearer reached
      rw [here, distance_of_le low under] at tie
      exact .inr (even reached (by linarith))
    · rw [here, distance_of_gt high beyond] at tie
      exact .inl (decimal_injective (by linarith))

private theorem contains_beside (positive : 0 < mantissa) {other : Nat}
    (found : (neighbourhood mantissa exponent).Contains (decimal other scale)) :
    (neighbourhood mantissa exponent).Contains (decimal below scale) ∨
      (neighbourhood mantissa exponent).Contains (decimal (below + 1) scale) := by
  have centre := @contains_magnitude mantissa exponent positive
  rcases le_or_gt other below with under | beyond
  · exact .inl (found.between centre (decimal_le_decimal under) low)
  · exact .inr (centre.between found high.le (decimal_le_decimal beyond))

end Beside

/-! ## The grid point that is taken -/

namespace Neighbourhood

variable (hood : Neighbourhood) (scale : Int)

/-- What a number in units of a neighbourhood is multiplied by to be compared with grid points. -/
def binaryUnit : Nat := power 2 hood.exponent.toNat * power 10 (-scale).toNat

/-- What a grid point is multiplied by to be compared with numbers in units of a neighbourhood. -/
def decimalUnit : Nat := power 2 (-hood.exponent).toNat * power 10 scale.toNat

/-- Whether a grid point passes for a point of a neighbourhood. -/
def inside (digits : Nat) : Bool :=
  if hood.closed then
    hood.lower * hood.binaryUnit scale ≤ digits * hood.decimalUnit scale &&
      digits * hood.decimalUnit scale ≤ hood.upper * hood.binaryUnit scale
  else
    hood.lower * hood.binaryUnit scale < digits * hood.decimalUnit scale &&
      digits * hood.decimalUnit scale < hood.upper * hood.binaryUnit scale

/-- What both units multiply rational numbers by. -/
def unit : ℚ := power 2 (-hood.exponent).toNat * power 10 (-scale).toNat

private theorem unit_pos : 0 < hood.unit scale := by
  have two : 0 < power 2 (-hood.exponent).toNat := power_pos (by decide) _
  have ten : 0 < power 10 (-scale).toNat := power_pos (by decide) _
  rw [unit]
  positivity

private theorem decimalUnit_pos : 0 < hood.decimalUnit scale :=
  Nat.mul_pos (power_pos (by decide) _) (power_pos (by decide) _)

private theorem cast_binary (a : Nat) :
    ((a * hood.binaryUnit scale : Nat) : ℚ) = a * 2 ^ hood.exponent * hood.unit scale := by
  have two : (power 2 (-hood.exponent).toNat : ℚ) ≠ 0 := by exact_mod_cast (power_pos (by decide) _).ne'
  have ratio := power_div_power 2 hood.exponent
  push_cast at ratio
  rw [← ratio, unit, binaryUnit]
  push_cast
  field_simp

private theorem cast_decimal (b : Nat) :
    ((b * hood.decimalUnit scale : Nat) : ℚ) = decimal b scale * hood.unit scale := by
  have ten : (power 10 (-scale).toNat : ℚ) ≠ 0 := by exact_mod_cast (power_pos (by decide) _).ne'
  have ratio := power_div_power 10 scale
  push_cast at ratio
  rw [decimal, ← ratio, unit, decimalUnit]
  push_cast
  field_simp

section Compared

variable (a b : Nat)

private theorem binary_le_decimal :
    a * hood.binaryUnit scale ≤ b * hood.decimalUnit scale ↔ a * 2 ^ hood.exponent ≤ decimal b scale := by
  rw [← Nat.cast_le (α := ℚ), cast_binary, cast_decimal, mul_le_mul_iff_left₀ (hood.unit_pos scale)]

private theorem decimal_le_binary :
    b * hood.decimalUnit scale ≤ a * hood.binaryUnit scale ↔ decimal b scale ≤ a * 2 ^ hood.exponent := by
  rw [← Nat.cast_le (α := ℚ), cast_binary, cast_decimal, mul_le_mul_iff_left₀ (hood.unit_pos scale)]

private theorem binary_lt_decimal :
    a * hood.binaryUnit scale < b * hood.decimalUnit scale ↔ a * 2 ^ hood.exponent < decimal b scale := by
  rw [← Nat.not_le, ← not_le, decimal_le_binary]

private theorem decimal_lt_binary :
    b * hood.decimalUnit scale < a * hood.binaryUnit scale ↔ decimal b scale < a * 2 ^ hood.exponent := by
  rw [← Nat.not_le, ← not_le, binary_le_decimal]

end Compared

/-- The numbers beside the value on a grid. -/
theorem beside {below : Nat} (below_eq : hood.value * hood.binaryUnit scale / hood.decimalUnit scale = below) :
    below * hood.decimalUnit scale ≤ hood.value * hood.binaryUnit scale ∧
      hood.value * hood.binaryUnit scale < (below + 1) * hood.decimalUnit scale := by
  rw [← below_eq]
  exact ⟨Nat.div_mul_le_self _ _, (Nat.div_lt_iff_lt_mul (hood.decimalUnit_pos scale)).mp (Nat.lt_succ_self _)⟩

section Gaps

variable {a b : Nat} (low : a * hood.decimalUnit scale ≤ hood.value * hood.binaryUnit scale)
  (high : hood.value * hood.binaryUnit scale < b * hood.decimalUnit scale)
include low high

private theorem gapBelow_lt_iff :
    hood.value * hood.binaryUnit scale - a * hood.decimalUnit scale <
        b * hood.decimalUnit scale - hood.value * hood.binaryUnit scale ↔
      hood.value * 2 ^ hood.exponent - decimal a scale < decimal b scale - hood.value * 2 ^ hood.exponent := by
  rw [← Nat.cast_lt (α := ℚ), Nat.cast_sub low, Nat.cast_sub high.le, cast_binary, cast_decimal, cast_decimal,
    ← sub_mul, ← sub_mul, mul_lt_mul_iff_left₀ (hood.unit_pos scale)]

private theorem gapAbove_lt_iff :
    b * hood.decimalUnit scale - hood.value * hood.binaryUnit scale <
        hood.value * hood.binaryUnit scale - a * hood.decimalUnit scale ↔
      decimal b scale - hood.value * 2 ^ hood.exponent < hood.value * 2 ^ hood.exponent - decimal a scale := by
  rw [← Nat.cast_lt (α := ℚ), Nat.cast_sub low, Nat.cast_sub high.le, cast_binary, cast_decimal, cast_decimal,
    ← sub_mul, ← sub_mul, mul_lt_mul_iff_left₀ (hood.unit_pos scale)]

end Gaps

private theorem inside_iff (digits : Nat) :
    hood.inside scale digits = true ↔ hood.Contains (decimal digits scale) := by
  rw [inside, Contains]
  split_ifs with closed
  · simp only [closed, Bool.and_eq_true, decide_eq_true_eq, binary_le_decimal, decimal_le_binary]
    simp
  · simp only [closed, Bool.and_eq_true, decide_eq_true_eq, binary_lt_decimal, decimal_lt_binary]
    constructor
    · rintro ⟨above, below⟩
      exact ⟨⟨above.le, below.le⟩, fun _ => ⟨above.ne', below.ne⟩⟩
    · rintro ⟨⟨above, below⟩, ends⟩
      obtain ⟨unlikeLower, unlikeUpper⟩ := ends (by simp)
      exact ⟨above.lt_of_ne' unlikeLower, below.lt_of_ne unlikeUpper⟩

end Neighbourhood

/-- The nearer one of the two points beside a value, if they are inside; of two that are as near, the even one. -/
def pick (inside : Nat → Bool) (value unit : Nat) : Option Nat :=
  let below := value / unit
  let above := below + 1
  match below != 0 && inside below, inside above with
  | true, true =>
    if value - below * unit < above * unit - value then some below
    else if above * unit - value < value - below * unit then some above
    else if below % 2 = 0 then some below else some above
  | true, false => some below
  | false, true => some above
  | false, false => none

private theorem pick_eq {inside : Nat → Bool} {value unit below : Nat} (below_eq : value / unit = below)
    (given : inside below = true → below ≠ 0) :
    pick inside value unit =
      if inside below = true then
        if inside (below + 1) = true then
          if value - below * unit < (below + 1) * unit - value then some below
          else if (below + 1) * unit - value < value - below * unit then some (below + 1)
          else if below % 2 = 0 then some below else some (below + 1)
        else some below
      else if inside (below + 1) = true then some (below + 1) else none := by
  subst below_eq
  unfold pick
  cases first : inside (value / unit) with
  | false => cases second : inside (value / unit + 1) <;> simp [first, second]
  | true =>
    have nonzero : (value / unit != 0) = true := bne_iff_ne.mpr (given first)
    cases second : inside (value / unit + 1) <;> simp [first, second, nonzero]

private theorem gridPoint?_eq (hood : Neighbourhood) (scale : Int) :
    gridPoint? hood scale = pick (hood.inside scale) (hood.value * hood.binaryUnit scale) (hood.decimalUnit scale) :=
  rfl

theorem value_neighbourhood (mantissa : Nat) (exponent : Int) :
    ((neighbourhood mantissa exponent).value : ℚ) * 2 ^ (neighbourhood mantissa exponent).exponent =
      magnitude mantissa exponent := by
  simp only [neighbourhood, magnitude, zpow_sub₀ (two_ne_zero (α := ℚ))]
  push_cast
  ring

/-- The grid point that is taken, if there is one in the neighbourhood of a positive number. -/
theorem gridPoint?_spec {mantissa : Nat} (positive : 0 < mantissa) (exponent scale : Int) :
    match gridPoint? (neighbourhood mantissa exponent) scale with
    | some digits => Closest mantissa exponent scale digits
    | none => ∀ digits, ¬(neighbourhood mantissa exponent).Contains (decimal digits scale) := by
  have test := (neighbourhood mantissa exponent).inside_iff scale
  obtain ⟨below, below_eq⟩ : ∃ below, (neighbourhood mantissa exponent).value *
      (neighbourhood mantissa exponent).binaryUnit scale / (neighbourhood mantissa exponent).decimalUnit scale =
        below := ⟨_, rfl⟩
  obtain ⟨under, beyond⟩ := Neighbourhood.beside _ scale below_eq
  have nearer := Neighbourhood.gapBelow_lt_iff _ scale under beyond
  have farther := Neighbourhood.gapAbove_lt_iff _ scale under beyond
  have low := (Neighbourhood.decimal_le_binary _ scale _ _).mp under
  have high := (Neighbourhood.binary_lt_decimal _ scale _ _).mp beyond
  have given (found : (neighbourhood mantissa exponent).inside scale below = true) : below ≠ 0 :=
    (digits_pos_of_contains positive ((test _).mp found)).ne'
  rw [value_neighbourhood] at nearer farther low high
  rw [gridPoint?_eq, pick_eq below_eq given]
  simp only [nearer, farther]
  split_ifs with insideBelow insideAbove before behind even insideAbove
  · exact closest_below low high ((test _).mp insideBelow) (fun _ => before.le) fun _ tie => absurd tie before.ne
  · exact closest_above low high ((test _).mp insideAbove) (fun _ => behind.le) fun _ tie => absurd tie behind.ne
  · exact closest_below low high ((test _).mp insideBelow) (fun _ => not_lt.mp behind) fun _ _ => even
  · exact closest_above low high ((test _).mp insideAbove) (fun _ => not_lt.mp before) fun _ _ => by omega
  · have outside := (test _).not.mp insideAbove
    exact closest_below low high ((test _).mp insideBelow) (absurd · outside) (absurd · outside)
  · have outside := (test _).not.mp insideBelow
    exact closest_above low high ((test _).mp insideAbove) (absurd · outside) (absurd · outside)
  · intro digits found
    rcases contains_beside low high positive found with inside | inside
    · exact insideBelow ((test _).mpr inside)
    · exact insideAbove ((test _).mpr inside)

end Binary64

end LiterateRuby.Number
