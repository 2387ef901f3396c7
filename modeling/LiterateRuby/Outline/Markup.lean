import LiterateRuby.Text.Line

/-! # Labels with style tags

A label can hold style tags, which are words in square brackets that start with a small letter, a
slash, a hash or an at sign. A backslash before a tag makes it text. `escape` writes a text so
that nothing in it is a tag; `plain` shows a label without its tags.
-/

namespace LiterateRuby.Outline

def opensTag (c : Char) : Bool := c.isLower || c == '#' || c == '/' || c == '@'

/-- The word of the tag whose bracket was just opened, and the text after it. -/
def tag? : List Char → Option (List Char × List Char)
  | [] => none
  | first :: rest =>
    if opensTag first then
      match rest.dropWhile fun c => c != '[' && c != ']' with
      | ']' :: more => some (first :: rest.takeWhile (fun c => c != '[' && c != ']'), more)
      | _ => none
    else none

private theorem length_lt_of_tag? {cs word rest : List Char} (found : tag? cs = some (word, rest)) :
    rest.length < cs.length := by
  cases cs with
  | nil => simp [tag?] at found
  | cons first tail =>
    simp only [tag?] at found
    split at found
    · split at found
      · next more dropped =>
        have shorter := (List.dropWhile_suffix fun c => c != '[' && c != ']' : _ <:+ tail).length_le
        rw [dropped] at shorter
        simp only [Option.some.injEq, Prod.mk.injEq] at found
        simp only [List.length_cons] at shorter ⊢
        rw [← found.2]
        omega
      · simp at found
    · simp at found

/-- The text that a label shows, when a number of backslashes was just read. -/
def plainAfter (slashes : Nat) : List Char → List Char
  | [] => List.replicate slashes '\\'
  | c :: rest =>
    if c = '\\' then plainAfter (slashes + 1) rest
    else if c = '[' then
      match found : tag? rest with
      | some (word, more) =>
        have := length_lt_of_tag? found
        let shown := if slashes % 2 = 1 then '[' :: word ++ [']'] else []
        List.replicate (slashes / 2) '\\' ++ shown ++ plainAfter 0 more
      | none => List.replicate (slashes - 1) '\\' ++ '[' :: plainAfter 0 rest
    else List.replicate slashes '\\' ++ c :: plainAfter 0 rest
  termination_by cs => cs.length
  decreasing_by all_goals simp only [List.length_cons]; omega

/-- Whether a control character is left out of what is shown. -/
def isUnshown (c : Char) : Bool :=
  let n := c.toNat
  n == 7 || n == 8 || n == 11 || n == 12 || n == 13

/-- The text that a label shows. -/
def plain (label : String) : List Char := (plainAfter 0 label.toList).filter (!isUnshown ·)

/-- Whether a bracket that was just opened is closed on its line, after a character that can open a
tag. -/
def closesOnLine : List Char → Bool
  | [] => false
  | first :: rest => opensTag first && (rest.takeWhile (· != '\n')).contains ']'

/-- The text after the bracket that closes what was just opened. -/
def pastBracket (cs : List Char) : List Char × List Char :=
  (cs.takeWhile (· != ']') ++ [']'], (cs.dropWhile (· != ']')).drop 1)

/-- A text with a backslash before each bracket of a possible tag, when a number of backslashes was
just read. -/
def escapeAfter (slashes : Nat) : List Char → List Char
  | [] => List.replicate slashes '\\'
  | c :: rest =>
    if c = '\\' then escapeAfter (slashes + 1) rest
    else if c = '[' && closesOnLine rest then
      List.replicate (2 * slashes + 1) '\\' ++ '[' :: (pastBracket rest).1 ++
        escapeAfter 0 (pastBracket rest).2
    else List.replicate slashes '\\' ++ c :: escapeAfter 0 rest
  termination_by cs => cs.length
  decreasing_by
    all_goals simp only [pastBracket, List.length_cons, List.length_drop]
    all_goals have := (List.dropWhile_suffix (· != ']') : _ <:+ rest).length_le
    all_goals omega

/-- A text written so that nothing in it is a tag; a single backslash at its end is doubled. -/
def escape (text : String) : String :=
  let written := escapeAfter 0 text.toList
  match written.reverse with
  | '\\' :: '\\' :: _ => String.ofList written
  | '\\' :: _ => String.ofList (written ++ ['\\'])
  | _ => String.ofList written

def styled (style text : String) : String := "[" ++ style ++ "]" ++ text ++ "[/" ++ style ++ "]"

end LiterateRuby.Outline
