import LiterateRuby.Text.Line

/-! # Indentation of method bodies

The span of a body starts at its first statement, so its first line has lost its indentation while
the others still have that of the file. The indentation that the lines have in common is removed;
where only the first line has none, it does not count.
-/

namespace LiterateRuby.Ruby

def indentation (line : List Char) : Nat := (line.takeWhile Text.isBlank).length

/-- A line without its first characters; a blank line becomes empty. -/
def unindent (width : Nat) (line : List Char) : List Char :=
  if Text.allBlank line then [] else line.drop width

/-- The least indentation of the lines that are not blank. -/
def leastIndentation? (lines : List (List Char)) : Option Nat :=
  ((lines.filter (!Text.allBlank ·)).map indentation).min?

/-- The lines of a body without the indentation that they have in common. -/
def dedentLines : List (List Char) → List (List Char)
  | [] => []
  | first :: later =>
    match leastIndentation? later with
    | some width =>
      if !Text.allBlank first && indentation first = 0 && 0 < width then
        first :: later.map (unindent width)
      else
        let common := ((leastIndentation? [first]).map (min width)).getD width
        (first :: later).map (unindent common)
    | none => [unindent (indentation first) first] ++ later.map (unindent 0)

/-- A body without the indentation that its lines have in common, and without blanks at the ends of
lines and blank lines at its ends. -/
def dedent (body : List Char) : List Char :=
  Text.trim (Text.unlines ((dedentLines (Text.lines body)).map Text.trimEnd))

end LiterateRuby.Ruby
