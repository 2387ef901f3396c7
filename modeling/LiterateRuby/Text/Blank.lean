import LiterateRuby.Text.CharSet

/-! # Blank characters and trimming

A character is blank if it is white space or a separator of lines or paragraphs in the Unicode
sense. Text read from any format is trimmed of blanks at both ends.
-/

namespace LiterateRuby.Text

/-- The blank characters of Unicode. -/
def blankSet : CharSet :=
  ⟨[
    0x9, 0xE, 0x1C, 0x21, 0x85, 0x86, 0xA0, 0xA1, 0x1680, 0x1681, 0x2000, 0x200B, 0x2028,
    0x202A, 0x202F, 0x2030, 0x205F, 0x2060, 0x3000, 0x3001]⟩

def isBlank (c : Char) : Bool := blankSet.contains c

def trimStart (cs : List Char) : List Char := cs.dropWhile isBlank

def trimEnd (cs : List Char) : List Char := (cs.reverse.dropWhile isBlank).reverse

def trim (cs : List Char) : List Char := trimEnd (trimStart cs)

def allBlank (cs : List Char) : Bool := cs.all isBlank

def trimmed (s : String) : String := String.ofList (trim s.toList)

theorem trimStart_of_allBlank {cs : List Char} (blank : allBlank cs = true) : trimStart cs = [] := by
  induction cs with
  | nil => rfl
  | cons c rest ih =>
    simp only [allBlank, List.all_cons, Bool.and_eq_true] at blank
    simp only [trimStart, List.dropWhile_cons, blank.1, ↓reduceIte]
    exact ih blank.2

theorem trim_of_allBlank {cs : List Char} (blank : allBlank cs = true) : trim cs = [] := by
  simp [trim, trimStart_of_allBlank blank, trimEnd]

end LiterateRuby.Text
