import LiterateRuby.Render.Ruby

/-! # Ruby code in one fenced block 
-/

namespace LiterateRuby.Render

/-- The line that opens and closes a fenced block, without a language. -/
def fence : String := "```"

/-- A document as Markdown with one fenced block of Ruby code; an empty document is no text. -/
def markdown (settings : RenderSettings) (document : Document) : Except Unwritable String := do
  let code ← ruby settings document
  if code = "" then return ""
  else return fence ++ settings.fenceLanguage ++ "\n" ++ code ++ fence ++ "\n"

end LiterateRuby.Render
