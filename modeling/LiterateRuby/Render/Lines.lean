/-! # Lines and sections

Rendered text is a list of lines. Sections are joined with exactly one blank line; a section
without lines leaves no trace. Blank lines are not indented.
-/

namespace LiterateRuby.Render

/-- Joins the sections that have lines with one blank line between neighbours. -/
def joinSections (sections : List (List String)) : List String :=
  ((sections.filter (!·.isEmpty)).intersperse [""]).flatten

/-- Indents the lines that are not empty. -/
def indentLines (indent : String) (lines : List String) : List String :=
  lines.map fun line => if line = "" then "" else indent ++ line

/-- Lines as text that ends with a line feed; no lines are no text. -/
def textOf (lines : List String) : String :=
  if lines.isEmpty then "" else "\n".intercalate lines ++ "\n"

theorem joinSections_nil_cons (sections : List (List String)) :
    joinSections ([] :: sections) = joinSections sections := by
  simp [joinSections]

theorem joinSections_singleton (lines : List String) : joinSections [lines] = lines := by
  cases lines <;> simp [joinSections]

end LiterateRuby.Render
