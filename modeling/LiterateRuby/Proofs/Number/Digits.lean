import LiterateRuby.Number.Decimal
import Mathlib.Data.List.Basic
import Mathlib.Data.Nat.Digits.Defs
import Mathlib.Tactic.Common
import Mathlib.Tactic.Ring

/-! # Decimal digits of natural numbers

A natural number is written in digits of ASCII without leading zeros, and read back from them. A run of digits of
any script is written again as it was read exactly if it is of this form (`natDigits_digitsValue_iff`).
-/

namespace LiterateRuby.Number

/-- A run of digits that a natural number is written in: digits of ASCII, the first of which is zero only if it is
the only one. -/
structure Plain (cs : List Char) : Prop where
  ascii : ∀ c ∈ cs, c.isDigit = true
  given : cs ≠ []
  leading : cs.head? = some '0' → cs = ['0']

private theorem isDigit_codes {c : Char} (ascii : c.isDigit = true) : 48 ≤ c.toNat ∧ c.toNat < 58 := by
  simp only [Char.isDigit, Bool.and_eq_true, decide_eq_true_eq, UInt32.le_iff_toNat_le] at ascii
  exact ⟨ascii.1, Nat.lt_succ_of_le ascii.2⟩

private theorem digitValue?_of_ascii {c : Char} (ascii : c.isDigit = true) :
    Text.digitValue? c = some (c.toNat - 48) := by
  obtain ⟨least, most⟩ := isDigit_codes ascii
  simp [Text.digitValue?, Text.zeros, least, most]

theorem isDigit_of_ascii {c : Char} (ascii : c.isDigit = true) : Text.isDigit c = true := by
  rw [Text.isDigit, digitValue?_of_ascii ascii]
  rfl

theorem isDigit_of_plain {cs : List Char} (plain : Plain cs) : ∀ c ∈ cs, Text.isDigit c = true :=
  fun c member => isDigit_of_ascii (plain.ascii c member)

theorem plain_zero : Plain ['0'] := ⟨List.forall_mem_singleton.mpr rfl, List.cons_ne_nil _ _, fun _ => rfl⟩

private theorem digitChar_sub {c : Char} (ascii : c.isDigit = true) : Nat.digitChar (c.toNat - 48) = c := by
  obtain ⟨least, most⟩ := isDigit_codes ascii
  apply Char.toNat_inj.mp
  rw [Nat.toNat_digitChar_of_lt_ten (by omega)]
  omega

private theorem digitsValue_eq_ofDigitChars {cs : List Char} (ascii : ∀ c ∈ cs, c.isDigit = true) :
    Text.digitsValue cs = Nat.ofDigitChars 10 cs 0 := by
  have fold (start : Nat) : (cs.filterMap Text.digitValue?).foldl (fun value digit => value * 10 + digit) start =
      Nat.ofDigitChars 10 cs start := by
    induction cs generalizing start with
    | nil => rfl
    | cons c rest ih =>
      obtain ⟨first, later⟩ := List.forall_mem_cons.mp ascii
      rw [List.filterMap_cons_some (digitValue?_of_ascii first), List.foldl_cons, ih later, Nat.ofDigitChars_cons,
        Nat.mul_comm]
      rfl
  exact fold 0

theorem ascii_natDigits (n : Nat) : ∀ c ∈ natDigits n, c.isDigit = true :=
  fun _ member => Nat.isDigit_of_mem_toDigits (by decide) (by decide) member

@[simp] theorem digitsValue_natDigits (n : Nat) : Text.digitsValue (natDigits n) = n := by
  rw [digitsValue_eq_ofDigitChars (ascii_natDigits n)]
  exact Nat.ofDigitChars_ten_toDigits

/-- Digits behind those of a positive number are the last digits of a number. -/
theorem toDigits_append {cs : List Char} (ascii : ∀ c ∈ cs, c.isDigit = true) {n : Nat} (positive : 0 < n) :
    Nat.toDigits 10 n ++ cs = Nat.toDigits 10 (Nat.ofDigitChars 10 cs n) := by
  induction cs generalizing n with
  | nil => simp [Nat.ofDigitChars_nil]
  | cons c rest ih =>
    obtain ⟨first, later⟩ := List.forall_mem_cons.mp ascii
    obtain ⟨least, most⟩ := isDigit_codes first
    have digit : c.toNat - 48 < 10 := by omega
    have next := Nat.toDigits_append_toDigits (by decide) positive digit
    rw [Nat.toDigits_of_lt_base digit, digitChar_sub first] at next
    rw [Nat.ofDigitChars_cons, List.append_cons, next]
    exact ih later (by omega)

theorem natDigits_digitsValue {cs : List Char} (plain : Plain cs) : natDigits (Text.digitsValue cs) = cs := by
  rw [digitsValue_eq_ofDigitChars plain.ascii]
  obtain ⟨c, rest, rfl⟩ := List.exists_cons_of_ne_nil plain.given
  obtain ⟨first, later⟩ := List.forall_mem_cons.mp plain.ascii
  obtain ⟨least, most⟩ := isDigit_codes first
  by_cases zero : c = '0'
  · subst zero
    rw [plain.leading rfl]
    decide
  · have positive : 0 < c.toNat - 48 := by
      have unlike : c.toNat ≠ 48 := fun same => zero (Char.toNat_inj.mp same)
      omega
    have digits := toDigits_append later positive
    rw [Nat.toDigits_of_lt_base (by omega), digitChar_sub first] at digits
    rw [Nat.ofDigitChars_cons, natDigits, Nat.mul_zero, Nat.zero_add]
    exact digits.symm

theorem eq_zero_of_leading {n : Nat} (leading : (natDigits n).head? = some '0') : n = 0 := by
  induction n using Nat.strongRecOn with
  | _ n ih =>
    rw [natDigits, Nat.toDigits_eq_if (by decide)] at leading
    split_ifs at leading with small
    · simpa using leading
    · rw [List.head?_append_of_ne_nil _ Nat.toDigits_ne_nil] at leading
      have tenth := ih (n / 10) (by omega) leading
      omega

theorem plain_natDigits (n : Nat) : Plain (natDigits n) where
  ascii := ascii_natDigits n
  given := Nat.toDigits_ne_nil
  leading zero := by
    rw [eq_zero_of_leading zero]
    rfl

/-- Digits are written as they were read exactly if they are of the form in which numbers are written. -/
theorem natDigits_digitsValue_iff (cs : List Char) : natDigits (Text.digitsValue cs) = cs ↔ Plain cs :=
  ⟨fun same => same ▸ plain_natDigits _, natDigits_digitsValue⟩

/-- A positive number lies between the powers of ten that its number of digits gives. -/
theorem exists_places {n : Nat} (positive : 0 < n) :
    ∃ places, (natDigits n).length = places + 1 ∧ 10 ^ places ≤ n ∧ n < 10 ^ (places + 1) := by
  induction n using Nat.strongRecOn with
  | _ n ih =>
    rw [natDigits, Nat.toDigits_eq_if (by decide)]
    split_ifs with small
    · exact ⟨0, rfl, positive, small⟩
    · obtain ⟨places, more, least, most⟩ := ih (n / 10) (by omega) (by omega)
      rw [← natDigits, List.length_append, List.length_singleton, more]
      refine ⟨places + 1, rfl, ?_, ?_⟩
      · rw [Nat.pow_succ]
        omega
      · rw [Nat.pow_succ]
        omega

private theorem foldl_digits (values : List Nat) (start : Nat) :
    values.foldl (fun value digit => value * 10 + digit) start =
      start * 10 ^ values.length + values.foldl (fun value digit => value * 10 + digit) 0 := by
  induction values generalizing start with
  | nil => simp
  | cons first rest ih =>
    rw [List.foldl_cons, List.foldl_cons, ih, ih (0 * 10 + first), List.length_cons, Nat.pow_succ]
    ring

private theorem foldl_digits_lt {values : List Nat} (digits : ∀ value ∈ values, value < 10) :
    values.foldl (fun value digit => value * 10 + digit) 0 < 10 ^ values.length := by
  induction values with
  | nil => simp
  | cons first rest ih =>
    obtain ⟨here, later⟩ := List.forall_mem_cons.mp digits
    have below := ih later
    rw [List.foldl_cons, foldl_digits, List.length_cons, Nat.pow_succ]
    rw [Nat.zero_mul, Nat.zero_add]
    calc first * 10 ^ rest.length + rest.foldl (fun value digit => value * 10 + digit) 0
      _ < first * 10 ^ rest.length + 10 ^ rest.length := Nat.add_lt_add_left below _
      _ = (first + 1) * 10 ^ rest.length := by ring
      _ ≤ 10 * 10 ^ rest.length := Nat.mul_le_mul_right _ here
      _ = 10 ^ rest.length * 10 := Nat.mul_comm _ _

/-- The value of a run of digits has no more digits than the run. -/
theorem length_natDigits_digitsValue {cs : List Char} (given : cs ≠ []) :
    (natDigits (Text.digitsValue cs)).length ≤ cs.length := by
  refine Nat.toDigits_length 10 _ _ (List.length_pos_of_ne_nil given) (Nat.lt_of_lt_of_le (foldl_digits_lt ?_) ?_)
  · intro value member
    obtain ⟨c, _, found⟩ := List.mem_filterMap.mp member
    exact Text.digitValue?_lt found
  · exact Nat.pow_le_pow_right (by decide) (List.length_filterMap_le _ _)

private theorem length_filterMap_digitValue? {cs : List Char} (digits : ∀ c ∈ cs, Text.isDigit c = true) :
    (cs.filterMap Text.digitValue?).length = cs.length := by
  induction cs with
  | nil => rfl
  | cons c rest ih =>
    obtain ⟨first, later⟩ := List.forall_mem_cons.mp digits
    obtain ⟨value, found⟩ := Option.isSome_iff_exists.mp first
    rw [List.filterMap_cons_some found, List.length_cons, List.length_cons, ih later]

theorem digitsValue_append (front : List Char) {cs : List Char} (digits : ∀ c ∈ cs, Text.isDigit c = true) :
    Text.digitsValue (front ++ cs) = Text.digitsValue front * 10 ^ cs.length + Text.digitsValue cs := by
  rw [Text.digitsValue, List.filterMap_append, List.foldl_append, foldl_digits,
    length_filterMap_digitValue? digits]
  rfl

theorem digitsValue_replicate_zero (zeros : Nat) : Text.digitsValue (List.replicate zeros '0') = 0 := by
  induction zeros with
  | zero => rfl
  | succ zeros ih =>
    rw [List.replicate_succ', digitsValue_append _ (isDigit_of_plain plain_zero), ih]
    rfl

/-- Digits that end in zero are those of a multiple of ten. -/
theorem digitsValue_mod_ten {cs : List Char} (last : cs.getLast? = some '0') : Text.digitsValue cs % 10 = 0 := by
  obtain ⟨front, rfl⟩ := List.getLast?_eq_some_iff.mp last
  have zero : Text.digitsValue ['0'] = 0 := by decide
  rw [digitsValue_append front (isDigit_of_plain plain_zero), zero, List.length_singleton]
  omega

/-- Digits of ASCII that are those of a multiple of ten end in zero. -/
theorem getLast?_of_mod_ten {front cs : List Char} (ascii : ∀ c ∈ cs, c.isDigit = true) (given : cs ≠ [])
    (multiple : Text.digitsValue (front ++ cs) % 10 = 0) : cs.getLast? = some '0' := by
  obtain ⟨early, last, rfl⟩ : ∃ early last, cs = early ++ [last] :=
    ⟨_, _, (List.dropLast_concat_getLast given).symm⟩
  have digit := ascii last (by simp)
  have known : ∀ c ∈ [last], Text.isDigit c = true := by simpa using isDigit_of_ascii digit
  obtain ⟨least, most⟩ := isDigit_codes digit
  have value : Text.digitsValue [last] = last.toNat - 48 := by simp [Text.digitsValue, digitValue?_of_ascii digit]
  rw [← List.append_assoc, digitsValue_append _ known, value, List.length_singleton] at multiple
  have zero : last = '0' := by
    apply Char.toNat_inj.mp
    change last.toNat = 48
    omega
  simp [zero]

/-- A multiple of a power of ten is written with trailing zeros. -/
theorem natDigits_mul_pow {n : Nat} (positive : 0 < n) (zeros : Nat) :
    natDigits (n * 10 ^ zeros) = natDigits n ++ List.replicate zeros '0' := by
  have digits : ∀ c ∈ List.replicate zeros '0', Text.isDigit c = true := by
    intro c member
    rw [List.eq_of_mem_replicate member]
    decide
  have plain : Plain (natDigits n ++ List.replicate zeros '0') := by
    refine ⟨fun c member => ?_, by simp [(plain_natDigits n).given], fun leading => ?_⟩
    · rcases List.mem_append.mp member with inside | inside
      · exact ascii_natDigits n c inside
      · rw [List.eq_of_mem_replicate inside]
        decide
    · rw [List.head?_append_of_ne_nil _ (plain_natDigits n).given] at leading
      have zero := eq_zero_of_leading leading
      omega
  have value : Text.digitsValue (natDigits n ++ List.replicate zeros '0') = n * 10 ^ zeros := by
    rw [digitsValue_append _ digits, digitsValue_natDigits, digitsValue_replicate_zero, List.length_replicate,
      Nat.add_zero]
  rw [← value]
  exact natDigits_digitsValue plain

theorem not_mem_natDigits {c : Char} (other : c.isDigit = false) (n : Nat) : c ∉ natDigits n := by
  intro member
  rw [ascii_natDigits n c member] at other
  cases other

theorem minus_not_mem_natDigits (n : Nat) : '-' ∉ natDigits n := not_mem_natDigits (by decide) n

theorem space_not_mem_natDigits (n : Nat) : ' ' ∉ natDigits n := not_mem_natDigits (by decide) n

/-! ## Integers -/

theorem toList_intText_natCast (n : Nat) : (intText n).toList = natDigits n := by
  simp [intText]

theorem toList_intText_neg {n : Nat} (positive : 0 < n) : (intText (-n)).toList = '-' :: natDigits n := by
  have negative : -(n : Int) < 0 := by omega
  rw [intText, if_pos negative, String.toList_ofList, Int.natAbs_neg, Int.natAbs_natCast]

/-- An integer whose opposite is written with a minus sign is positive. -/
theorem natural_of_opposite_signed {i : Int} (signed : (intText (-i)).toList.head? = some '-') :
    ∃ n : Nat, 0 < n ∧ i = n := by
  refine ⟨i.toNat, ?_, ?_⟩ <;> by_contra negative
  all_goals
    obtain ⟨n, same⟩ : ∃ n : Nat, -i = n := ⟨(-i).toNat, by omega⟩
    rw [same, toList_intText_natCast] at signed
    exact minus_not_mem_natDigits n (List.mem_of_head? signed)

theorem not_minus_of_digits {cs : List Char} (digits : ∀ c ∈ cs, Text.isDigit c = true) (rest : List Char) :
    cs ≠ '-' :: rest := by
  rintro rfl
  have digit := digits '-' List.mem_cons_self
  revert digit
  decide

theorem intOfText?_digits {cs : List Char} (given : cs ≠ []) (digits : ∀ c ∈ cs, Text.isDigit c = true) :
    intOfText? cs = some (Text.digitsValue cs : Int) := by
  have known : (cs.isEmpty || !cs.all Text.isDigit) = false := by simpa [given] using digits
  unfold intOfText?
  split
  next negative run signed =>
    split at signed
    · next rest => exact absurd rfl (not_minus_of_digits digits rest)
    · obtain ⟨rfl, rfl⟩ := Prod.mk.inj signed
      simp [known]

end LiterateRuby.Number
