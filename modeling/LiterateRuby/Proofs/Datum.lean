import LiterateRuby.Datum
import Mathlib.Data.List.Basic

/-! # The text of data

A value that counts as given has a text that is not empty.
-/

namespace LiterateRuby

private theorem Number.natDigits_ne_nil (n : Nat) : Number.natDigits n ≠ [] := Nat.toDigits_ne_nil

private theorem Number.intText_ne_empty (value : Int) : Number.intText value ≠ "" := by
  unfold Number.intText
  split <;> simp [Number.natDigits_ne_nil]

private theorem Number.layout_ne_nil (digits : List Char) (point : Int) :
    Number.Binary64.layout digits point ≠ [] := by
  unfold Number.Binary64.layout
  dsimp only
  split_ifs <;> simp

private theorem Number.Binary64.text_ne_empty (value : Number.Binary64) : value.text ≠ "" := by
  cases value with
  | nan => decide
  | infinite negative => cases negative <;> decide
  | finite negative mantissa exponent =>
    simp only [Number.Binary64.text]
    split_ifs <;> simp [Number.layout_ne_nil]

namespace Datum

/-- A value that counts as given has a text. -/
theorem text_ne_empty {value : Datum} (given : value.isGiven = true) : value.text ≠ "" := by
  cases value with
  | null => cases given
  | bool value => cases value <;> simp [text, display, boolText]
  | int value => exact Number.intText_ne_empty value
  | float value => exact Number.Binary64.text_ne_empty value
  | str value => simpa [isGiven, text] using given
  | date value => simp [text, Date.text]
  | time value => simp [text, Timestamp.text]
  | bytes value => simp [text, display, Text.quotedBytes]
  | list items => simp [text, display, enclosed]
  | tuple items =>
    simp only [text, display]
    split <;> simp [enclosed]
  | set items =>
    simp only [text, display]
    split <;> simp [enclosed]
  | map entries => simp [text, display, enclosed]

end Datum

end LiterateRuby
