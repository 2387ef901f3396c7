/-! # Powers and totals of natural numbers

A power and the total of a list, each with the equations of its recursion, so that facts about
rounding and about widths need no algebra beyond that of natural numbers.
-/

namespace LiterateRuby.Number

/-- A natural number multiplied by itself. -/
def power (base exponent : Nat) : Nat := Nat.pow base exponent

def total : List Nat → Nat
  | [] => 0
  | n :: rest => n + total rest

private theorem power_succ (base exponent : Nat) : power base (exponent + 1) = power base exponent * base := rfl

theorem power_pos {base : Nat} (positive : 0 < base) (exponent : Nat) : 0 < power base exponent := by
  induction exponent with
  | zero => exact Nat.one_pos
  | succ exponent ih =>
    rw [power_succ]
    exact Nat.mul_pos ih positive

end LiterateRuby.Number
