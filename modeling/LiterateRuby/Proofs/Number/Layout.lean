import LiterateRuby.Proofs.Number.Reading
import LiterateRuby.Proofs.Text.Lines
import Mathlib.Data.List.TakeDrop
import Mathlib.Data.List.TakeWhile

/-! # Positional notation

A decimal near one is laid out as digits with a point, in the one way that spells its value without zeros that say
nothing (`layout_positional`, `Positional.unique`). Such a text is read back as the decimal that it spells.
-/

namespace LiterateRuby.Number

/-- Digits before and behind a point without zeros that say nothing: no leading zero but the last digit before the
point, and no trailing one but the first digit behind it. -/
structure Positional (whole fraction : List Char) : Prop where
  whole : Plain whole
  ascii : ∀ c ∈ fraction, c.isDigit = true
  given : fraction ≠ []
  trailing : fraction.getLast? = some '0' → fraction = ['0']

/-- The number that digits before and behind a point spell. -/
def spelled (whole fraction : List Char) : ℚ :=
  decimal (Text.digitsValue (whole ++ fraction)) (-fraction.length)

/-! ## One spelling for each value -/

private theorem digitsValue_injective {a b : List Char} (asciiLeft : ∀ c ∈ a, c.isDigit = true)
    (asciiRight : ∀ c ∈ b, c.isDigit = true) (length : a.length = b.length)
    (same : Text.digitsValue a = Text.digitsValue b) : a = b := by
  -- a first digit other than zero makes both runs plain
  have plain {cs : List Char} (ascii : ∀ c ∈ cs, c.isDigit = true) : Plain ('1' :: cs) :=
    ⟨by simpa using ascii, by simp, by simp⟩
  have value {cs : List Char} (ascii : ∀ c ∈ cs, c.isDigit = true) :
      Text.digitsValue ('1' :: cs) = 10 ^ cs.length + Text.digitsValue cs := by
    have one : Text.digitsValue ['1'] = 1 := by decide
    have split := digitsValue_append ['1'] fun c member => isDigit_of_ascii (ascii c member)
    rwa [one, Nat.one_mul] at split
  have whole : '1' :: a = '1' :: b := by
    rw [← natDigits_digitsValue (plain asciiLeft), ← natDigits_digitsValue (plain asciiRight), value asciiLeft,
      value asciiRight, length, same]
  exact List.tail_eq_of_cons_eq whole

private theorem digitsValue_lt {cs : List Char} (digits : ∀ c ∈ cs, Text.isDigit c = true) :
    Text.digitsValue cs < 10 ^ cs.length := by
  induction cs with
  | nil => decide
  | cons c rest ih =>
    obtain ⟨first, later⟩ := List.forall_mem_cons.mp digits
    obtain ⟨value, found⟩ := Option.isSome_iff_exists.mp first
    have small := Text.digitValue?_lt found
    have single : Text.digitsValue [c] = value := by simp [Text.digitsValue, found]
    have split := digitsValue_append [c] later
    rw [single] at split
    rw [← List.singleton_append, split, List.length_append, List.length_singleton, Nat.pow_add]
    have below := ih later
    have most : value * 10 ^ rest.length ≤ 9 * 10 ^ rest.length := Nat.mul_le_mul_right _ (by omega)
    omega

section Unique

variable {whole fraction other rest : List Char}

private theorem Positional.digits (positional : Positional whole fraction) :
    ∀ c ∈ fraction, Text.isDigit c = true :=
  fun c member => isDigit_of_ascii (positional.ascii c member)

/-- With as many places behind the point the same value is spelled by the same digits. -/
theorem Positional.eq_of_length (left : Positional whole fraction) (right : Positional other rest)
    (length : fraction.length = rest.length)
    (same : Text.digitsValue (whole ++ fraction) = Text.digitsValue (other ++ rest)) :
    whole = other ∧ fraction = rest := by
  rw [digitsValue_append whole left.digits, digitsValue_append other right.digits, length] at same
  have smallLeft := digitsValue_lt left.digits
  have smallRight := digitsValue_lt right.digits
  rw [length] at smallLeft
  have step : 0 < 10 ^ rest.length := by positivity
  have front : Text.digitsValue whole = Text.digitsValue other := by
    have divided := congrArg (· / 10 ^ rest.length) same
    simpa [Nat.mul_comm _ (10 ^ rest.length), Nat.mul_add_div step, Nat.div_eq_of_lt smallLeft,
      Nat.div_eq_of_lt smallRight] using divided
  rw [front, Nat.add_left_cancel_iff] at same
  refine ⟨?_, digitsValue_injective left.ascii right.ascii length same⟩
  rw [← natDigits_digitsValue left.whole, front, natDigits_digitsValue right.whole]

theorem Positional.unique (left : Positional whole fraction) (right : Positional other rest)
    (same : spelled whole fraction = spelled other rest) : whole = other ∧ fraction = rest := by
  wlog order : fraction.length ≤ rest.length generalizing whole fraction other rest
  · obtain ⟨front, back⟩ := this right left same.symm (Nat.le_of_not_le order)
    exact ⟨front.symm, back.symm⟩
  obtain ⟨more, length⟩ := Nat.exists_eq_add_of_le order
  have scaled : Text.digitsValue (other ++ rest) = Text.digitsValue (whole ++ fraction) * 10 ^ more := by
    apply @decimal_injective _ _ (-rest.length)
    rw [← decimal_add, ← spelled, ← same, spelled, length]
    congr 1
    push_cast
    ring
  rcases more with _ | more
  · apply left.eq_of_length right length.symm
    simpa using scaled.symm
  · have multiple : Text.digitsValue (other ++ rest) % 10 = 0 := by
      rw [scaled, Nat.pow_succ, ← Nat.mul_assoc]
      exact Nat.mul_mod_left _ 10
    have last := getLast?_of_mod_ten right.ascii right.given multiple
    have empty : fraction.length = 0 := by
      rw [right.trailing last, List.length_singleton] at length
      omega
    exact absurd (List.length_eq_zero_iff.mp empty) left.given

end Unique

/-! ## The three places of a point -/

section Places

variable {digits : Nat} (stripped : digits % 10 ≠ 0)
include stripped

private theorem getLast?_natDigits : (natDigits digits).getLast? ≠ some '0' := by
  intro last
  have multiple := digitsValue_mod_ten last
  rw [digitsValue_natDigits] at multiple
  exact stripped multiple

/-- Before the first digit the point stands behind a zero. -/
theorem positional_before (zeros : Nat) : Positional ['0'] (List.replicate zeros '0' ++ natDigits digits) where
  whole := plain_zero
  ascii c member := by
    rcases List.mem_append.mp member with inside | inside
    · rw [List.eq_of_mem_replicate inside]
      decide
    · exact ascii_natDigits digits c inside
  given := by simp [(plain_natDigits digits).given]
  trailing last := by
    rw [List.getLast?_append_of_ne_nil _ (plain_natDigits digits).given] at last
    exact absurd last (getLast?_natDigits stripped)

omit stripped in
private theorem spelled_before (zeros : Nat) :
    spelled ['0'] (List.replicate zeros '0' ++ natDigits digits) =
      decimal digits (-zeros - (natDigits digits).length) := by
  have known : ∀ c ∈ natDigits digits, Text.isDigit c = true :=
    fun c member => isDigit_of_ascii (ascii_natDigits digits c member)
  have front : ['0'] ++ List.replicate zeros '0' = List.replicate (zeros + 1) '0' := rfl
  rw [spelled, ← List.append_assoc, front, digitsValue_append _ known, digitsValue_replicate_zero, Nat.zero_mul,
    Nat.zero_add, digitsValue_natDigits, List.length_append, List.length_replicate]
  congr 1
  push_cast
  ring

/-- Behind the last digit the point stands before a zero. -/
theorem positional_behind (zeros : Nat) : Positional (natDigits digits ++ List.replicate zeros '0') ['0'] where
  whole := by
    rw [← natDigits_mul_pow (by omega)]
    exact plain_natDigits _
  ascii := plain_zero.ascii
  given := plain_zero.given
  trailing _ := rfl

private theorem spelled_behind (zeros : Nat) :
    spelled (natDigits digits ++ List.replicate zeros '0') ['0'] = decimal digits zeros := by
  have zero : Text.digitsValue ['0'] = 0 := by decide
  rw [spelled, digitsValue_append _ (isDigit_of_plain plain_zero), ← natDigits_mul_pow (by omega), digitsValue_natDigits, zero,
    List.length_singleton, Nat.add_zero, Nat.mul_assoc, ← Nat.pow_add, ← decimal_add]
  congr 1
  push_cast
  ring

variable {places : Nat} (inside : places < (natDigits digits).length)
include inside

/-- Between the digits the point parts them. -/
theorem positional_between (positive : 0 < places) :
    Positional ((natDigits digits).take places) ((natDigits digits).drop places) where
  whole := by
    have given : (natDigits digits).take places ≠ [] := by
      simpa [(plain_natDigits digits).given] using positive.ne'
    refine ⟨fun c member => ascii_natDigits digits c (List.mem_of_mem_take member), given, fun leading => ?_⟩
    rw [List.head?_take, if_neg positive.ne'] at leading
    have zero := eq_zero_of_leading leading
    omega
  ascii c member := ascii_natDigits digits c (List.mem_of_mem_drop member)
  given := by simpa using inside
  trailing last := by
    rw [List.getLast?_drop, if_neg (by omega)] at last
    exact absurd last (getLast?_natDigits stripped)

omit stripped in
private theorem spelled_between :
    spelled ((natDigits digits).take places) ((natDigits digits).drop places) =
      decimal digits (places - (natDigits digits).length) := by
  rw [spelled, List.take_append_drop, digitsValue_natDigits, List.length_drop, Nat.cast_sub inside.le, neg_sub]

end Places

namespace Binary64

/-! ## Laying out -/

private theorem dropTrailingZeros_append {cs : List Char} (last : cs.getLast? ≠ some '0') (zeros : Nat) :
    dropTrailingZeros (cs ++ List.replicate zeros '0') = cs := by
  rw [dropTrailingZeros, List.reverse_append, List.reverse_replicate]
  have dropped : (List.replicate zeros '0' ++ cs.reverse).dropWhile (· == '0') = cs.reverse.dropWhile (· == '0') := by
    apply List.dropWhile_append_of_pos
    intro c member
    rw [List.eq_of_mem_replicate member]
    decide
  rw [dropped]
  cases reversed : cs.reverse with
  | nil => simpa using reversed
  | cons c rest =>
    have kept : ¬(c == '0') = true := by
      intro zero
      apply last
      rw [← List.head?_reverse, reversed, List.head?_cons, beq_iff_eq.mp zero]
    rw [List.dropWhile_cons, if_neg kept, ← reversed, List.reverse_reverse]

theorem dropTrailingZeros_natDigits {digits : Nat} (stripped : digits % 10 ≠ 0) (zeros : Nat) :
    dropTrailingZeros (natDigits (digits * 10 ^ zeros)) = natDigits digits := by
  rw [natDigits_mul_pow (by omega)]
  exact dropTrailingZeros_append (getLast?_natDigits stripped) zeros

section Layout

variable {digits : Nat} {point : Int}

theorem layout_scientific (beyond : point ≤ -4 ∨ 16 < point) (cs : List Char) : 'e' ∈ layout cs point := by
  rw [layout]
  simp [beyond]

/-- Near one the digits stand in positional notation. -/
theorem layout_positional (stripped : digits % 10 ≠ 0) (low : -4 < point) (high : point ≤ 16) :
    ∃ whole fraction, layout (natDigits digits) point = whole ++ '.' :: fraction ∧ Positional whole fraction ∧
      spelled whole fraction = decimal digits (point - (natDigits digits).length) := by
  rw [layout]
  dsimp only
  rw [if_neg (by omega)]
  split_ifs with before behind
  · obtain ⟨zeros, rfl⟩ : ∃ zeros : Nat, point = -zeros := ⟨(-point).toNat, by omega⟩
    refine ⟨_, _, ?_, positional_before stripped zeros, spelled_before zeros⟩
    rw [Int.neg_neg, Int.toNat_natCast]
    rfl
  · obtain ⟨zeros, rfl⟩ : ∃ zeros : Nat, point = (natDigits digits).length + zeros :=
      ⟨(point - (natDigits digits).length).toNat, by omega⟩
    refine ⟨_, _, ?_, positional_behind stripped zeros, ?_⟩
    · rw [add_sub_cancel_left, Int.toNat_natCast]
    · rw [add_sub_cancel_left]
      exact spelled_behind stripped zeros
  · obtain ⟨places, rfl⟩ : ∃ places : Nat, point = places := ⟨point.toNat, by omega⟩
    have inside : places < (natDigits digits).length := by omega
    exact ⟨_, _, rfl, positional_between stripped inside (by omega), spelled_between inside⟩

end Layout

/-! ## Signs -/

def signed (negative : Bool) (body : List Char) : List Char := if negative then '-' :: body else body

/-- Digits that are laid out do not start with a minus sign. -/
theorem head?_layout {digits : List Char} (unsigned : '-' ∉ digits) (point : Int) :
    (layout digits point).head? ≠ some '-' := by
  have first {front : List Char} (part : front ⊆ digits) {rest : List Char} (other : rest.head? ≠ some '-') :
      (front ++ rest).head? ≠ some '-' := by
    cases front with
    | nil => exact other
    | cons c front =>
      intro minus
      obtain rfl : c = '-' := by simpa using minus
      exact unsigned (part List.mem_cons_self)
  rw [layout]
  dsimp only
  split_ifs with scientific before behind
  · rw [List.append_assoc]
    apply first (List.take_subset 1 digits)
    split <;> simp
  · simp
  · rw [List.append_assoc]
    apply first (List.Subset.refl digits)
    cases (point - digits.length).toNat <;> simp [List.replicate_succ]
  · apply first (List.take_subset _ digits)
    simp

/-- The text of a finite number without its sign. -/
def bodyText (mantissa : Nat) (exponent : Int) : List Char :=
  if mantissa = 0 then ['0', '.', '0']
  else
    layout (dropTrailingZeros (natDigits (shortest mantissa exponent).1))
      ((shortest mantissa exponent).2 + (natDigits (shortest mantissa exponent).1).length)

theorem toList_text_finite (negative : Bool) (mantissa : Nat) (exponent : Int) :
    (finite negative mantissa exponent).text.toList = signed negative (bodyText mantissa exponent) := by
  rw [text, String.toList_ofList]
  rfl

theorem head?_bodyText (mantissa : Nat) (exponent : Int) : (bodyText mantissa exponent).head? ≠ some '-' := by
  rw [bodyText]
  split_ifs with zero
  · decide
  · apply head?_layout
    intro member
    have kept := (List.dropWhile_suffix _).subset (List.mem_reverse.mp member)
    exact minus_not_mem_natDigits _ (List.mem_reverse.mp kept)

theorem toList_text_neg {x : Binary64} (unsigned : x.text.toList.head? ≠ some '-') (number : x ≠ .nan) :
    x.neg.text.toList = '-' :: x.text.toList := by
  cases x with
  | nan => exact absurd rfl number
  | infinite negative =>
    cases negative with
    | true => exact absurd rfl unsigned
    | false => rfl
  | finite negative mantissa exponent =>
    rw [neg, toList_text_finite, toList_text_finite] at *
    cases negative with
    | true => exact absurd rfl unsigned
    | false => rfl

/-- The opposite of a number that is written with a minus sign is written without one. -/
theorem head?_text_neg {x : Binary64} (minus : x.text.toList.head? = some '-') :
    x.neg.text.toList.head? ≠ some '-' := by
  cases x with
  | nan => exact absurd minus (by decide)
  | infinite negative => cases negative <;> first | exact absurd minus (by decide) | decide
  | finite negative mantissa exponent =>
    rw [toList_text_finite] at minus
    rw [neg, toList_text_finite]
    cases negative with
    | true => exact head?_bodyText mantissa exponent
    | false => exact absurd minus (head?_bodyText mantissa exponent)

/-! ## Reading back -/

section Parts

variable {whole fraction : List Char} (left : ∀ c ∈ whole, Text.isDigit c = true)
include left

private theorem takeWhile_point : (whole ++ '.' :: fraction).takeWhile Text.isDigit = whole := by
  have point : ¬Text.isDigit '.' = true := by decide
  rw [List.takeWhile_append_of_pos left, List.takeWhile_cons_of_neg point, List.append_nil]

private theorem dropWhile_point : (whole ++ '.' :: fraction).dropWhile Text.isDigit = '.' :: fraction := by
  have point : ¬Text.isDigit '.' = true := by decide
  rw [List.dropWhile_append_of_pos left, List.dropWhile_cons_of_neg point]

/-- A point parts digits in one way. -/
theorem split_at_point {other rest : List Char} (right : ∀ c ∈ other, Text.isDigit c = true)
    (same : whole ++ '.' :: fraction = other ++ '.' :: rest) : whole = other ∧ fraction = rest := by
  have front := congrArg (List.takeWhile Text.isDigit) same
  have back := congrArg (List.dropWhile Text.isDigit) same
  rw [takeWhile_point left, takeWhile_point right] at front
  rw [dropWhile_point left, dropWhile_point right] at back
  exact ⟨front, List.tail_eq_of_cons_eq back⟩

end Parts

/-- Digits with a point are read as the decimal that they spell. -/
theorem ofText?_signed (negative : Bool) {whole fraction : List Char} (given : whole ≠ [])
    (left : ∀ c ∈ whole, Text.isDigit c = true) (right : ∀ c ∈ fraction, Text.isDigit c = true) :
    ofText? (signed negative (whole ++ '.' :: fraction)) =
      some (ofDecimal negative (Text.digitsValue (whole ++ fraction)) (-fraction.length)) := by
  have taken := @takeWhile_point whole fraction left
  have dropped := @dropWhile_point whole fraction left
  have all : fraction.takeWhile Text.isDigit = fraction := List.takeWhile_eq_self_iff.mpr right
  have empty : fraction.dropWhile Text.isDigit = [] := List.dropWhile_eq_nil_iff.mpr right
  have filled : whole.isEmpty = false := List.isEmpty_eq_false_iff.mpr given
  have unsigned (c : Char) (other : Text.isDigit c = false) (rest : List Char) :
      whole ++ '.' :: fraction ≠ c :: rest := by
    obtain ⟨first, more, rfl⟩ := List.exists_cons_of_ne_nil given
    intro same
    obtain ⟨rfl, -⟩ := List.cons.inj same
    rw [left first List.mem_cons_self] at other
    cases other
  unfold ofText?
  split
  next sign body starts =>
    obtain ⟨rfl, rfl⟩ : negative = sign ∧ whole ++ '.' :: fraction = body := by
      cases negative with
      | true => exact Prod.mk.inj starts
      | false =>
        split at starts
        · next rest same => exact absurd same (unsigned '-' (by decide) rest)
        · next rest same => exact absurd same (unsigned '+' (by decide) rest)
        · exact Prod.mk.inj starts
    simp [taken, dropped, all, empty, filled]

end Binary64

/-! ## Numbers stand in one line -/

private theorem flat_natDigits (n : Nat) : Text.Flat (natDigits n) := not_mem_natDigits (by decide) n

theorem flat_intText (i : Int) : Text.Flat (intText i).toList := by
  unfold intText
  split_ifs <;> simp [flat_natDigits]

namespace Binary64

private theorem flat_exponentText (exponent : Int) : Text.Flat (exponentText exponent) := by
  have digits := flat_natDigits exponent.natAbs
  unfold exponentText
  dsimp only
  split <;> split <;> simp [digits]

private theorem flat_layout {digits : List Char} (flat : Text.Flat digits) (point : Int) :
    Text.Flat (layout digits point) := by
  have zeros (count : Nat) : Text.Flat (List.replicate count '0') := by simp [Text.Flat]
  have leading (count : Nat) : Text.Flat (digits.take count) := flat.subset (List.take_subset count digits)
  have others (count : Nat) : Text.Flat (digits.drop count) := flat.subset (List.drop_subset count digits)
  unfold layout
  dsimp only
  split_ifs with scientific before behind
  · have rest := others 1
    split <;> simp_all [flat_exponentText]
  · simp [zeros, flat]
  · simp [zeros, flat]
    decide
  · simp [leading, others]

theorem flat_text (x : Binary64) : Text.Flat x.text.toList := by
  cases x with
  | nan => decide
  | infinite negative => cases negative <;> decide
  | finite negative mantissa exponent =>
    have body : Text.Flat (bodyText mantissa exponent) := by
      unfold bodyText
      split_ifs
      · decide
      · have kept (n : Nat) : dropTrailingZeros (natDigits n) ⊆ natDigits n := fun c member =>
          List.mem_reverse.mp ((List.dropWhile_suffix _).subset (List.mem_reverse.mp member))
        exact flat_layout ((flat_natDigits _).subset (kept _)) _
    rw [toList_text_finite, signed]
    split_ifs
    · simpa using body
    · exact body

end Binary64

end LiterateRuby.Number
