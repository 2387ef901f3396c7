import LiterateRuby.Text.Blank

/-! # Lines, items and scoped names

Splitting a text at a character loses nothing: joining the pieces with that character gives the
text back (`joinOn_splitOn`). Lines are the pieces at line feeds; the segments of a scoped name
are the pieces at double colons.
-/

namespace LiterateRuby.Text

/-- The pieces of a text between the occurrences of a character. -/
def splitOn (separator : Char) : List Char → List (List Char)
  | [] => [[]]
  | c :: rest =>
    if c = separator then [] :: splitOn separator rest
    else match splitOn separator rest with
      | [] => [[c]]
      | piece :: more => (c :: piece) :: more

/-- The pieces joined with a character between neighbours. -/
def joinOn (separator : Char) : List (List Char) → List Char
  | [] => []
  | [piece] => piece
  | piece :: more => piece ++ separator :: joinOn separator more

theorem splitOn_ne_nil (separator : Char) (cs : List Char) : splitOn separator cs ≠ [] := by
  cases cs with
  | nil => simp [splitOn]
  | cons c rest =>
    simp only [splitOn]
    split
    · simp
    · split <;> simp

private theorem joinOn_cons_cons (separator c : Char) (piece : List Char) (more : List (List Char)) :
    joinOn separator ((c :: piece) :: more) = c :: joinOn separator (piece :: more) := by
  cases more <;> simp [joinOn]

/-- Splitting loses nothing. -/
theorem joinOn_splitOn (separator : Char) (cs : List Char) :
    joinOn separator (splitOn separator cs) = cs := by
  induction cs with
  | nil => rfl
  | cons c rest ih =>
    simp only [splitOn]
    split
    · next same =>
      cases pieces : splitOn separator rest with
      | nil => exact absurd pieces (splitOn_ne_nil separator rest)
      | cons piece more => simp [joinOn, ← pieces, ih, same]
    · cases pieces : splitOn separator rest with
      | nil => exact absurd pieces (splitOn_ne_nil separator rest)
      | cons piece more =>
        simp only [joinOn_cons_cons]
        rw [← pieces, ih]

/-- The lines of a text; a text without a line feed is one line. -/
def lines (cs : List Char) : List (List Char) := splitOn '\n' cs

def unlines (ls : List (List Char)) : List Char := joinOn '\n' ls

theorem unlines_lines (cs : List Char) : unlines (lines cs) = cs := joinOn_splitOn '\n' cs

def linesOf (s : String) : List String := (lines s.toList).map String.ofList

/-- The pieces of a text between double colons, read from the left. -/
def splitScope : List Char → List (List Char)
  | [] => [[]]
  | ':' :: ':' :: rest => [] :: splitScope rest
  | c :: rest =>
    match splitScope rest with
    | [] => [[c]]
    | piece :: more => (c :: piece) :: more

def scopeSegments (name : String) : List String := (splitScope name.toList).map String.ofList

/-- Segments joined with double colons. -/
def joinScope (segments : List String) : String := "::".intercalate segments

/-- Carriage returns, alone or before a line feed, become line feeds. -/
def unixLines : List Char → List Char
  | [] => []
  | '\r' :: '\n' :: rest => '\n' :: unixLines rest
  | '\r' :: rest => '\n' :: unixLines rest
  | c :: rest => c :: unixLines rest

/-- The rest of a text that starts with a given text. -/
def after? : List Char → List Char → Option (List Char)
  | [], cs => some cs
  | _ :: _, [] => none
  | p :: ps, c :: cs => if p = c then after? ps cs else none

/-- A text without a given start, or unchanged if it starts otherwise. -/
def dropStart (start cs : List Char) : List Char := (after? start cs).getD cs

theorem after?_append (start rest : List Char) : after? start (start ++ rest) = some rest := by
  induction start with
  | nil => rfl
  | cons c start ih => simp [after?, ih]

theorem after?_eq_some_iff {start cs rest : List Char} :
    after? start cs = some rest ↔ cs = start ++ rest := by
  constructor
  · intro found
    induction start generalizing cs with
    | nil => simpa [after?] using found
    | cons p start ih =>
      cases cs with
      | nil => simp [after?] at found
      | cons c cs =>
        simp only [after?] at found
        split at found
        · next same => simp [same, ih found]
        · exact absurd found (by simp)
  · rintro rfl
    exact after?_append start rest

/-- Items in order of first occurrence, without the later occurrences. -/
def distinct [BEq α] (items : List α) : List α :=
  items.foldl (fun kept item => if kept.contains item then kept else kept ++ [item]) []

end LiterateRuby.Text
