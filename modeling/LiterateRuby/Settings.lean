import LiterateRuby.Text.Blank
import LiterateRuby.Text.Quoted

/-! # Options of rendering and of the outline

Indentation consists of spaces and tabs, the language of a fence is one word, and an outline is at
least forty cells wide.
-/

namespace LiterateRuby

/-- How code is rendered. -/
structure RenderSettings where
  /-- One level of indentation. -/
  indent : String
  /-- The word after an opening fence. -/
  fenceLanguage : String
  /-- Whether the prose of a method is written as comments above it. -/
  proseAsComments : Bool
  deriving DecidableEq, Repr

namespace RenderSettings

def default : RenderSettings := ⟨"  ", "ruby", false⟩

/-- Why settings are refused. -/
inductive Flaw where
  | noIndent
  | badIndent (indent : String)
  | badLanguage (language : String)
  deriving DecidableEq, Repr

def Flaw.message : Flaw → String
  | .noIndent => "indent must not be empty"
  | .badIndent indent => "indent must contain only spaces or tabs, got " ++ Text.quoted indent
  | .badLanguage language =>
    "fence_language must not contain whitespace or backticks, got " ++ Text.quoted language

def checked (settings : RenderSettings) : Except Flaw RenderSettings :=
  if settings.indent = "" then .error .noIndent
  else if settings.indent.toList.any fun c => c != ' ' && c != '\t' then
    .error (.badIndent settings.indent)
  else if settings.fenceLanguage.toList.any fun c => Text.isBlank c || c.toNat == 0x60 then
    .error (.badLanguage settings.fenceLanguage)
  else .ok settings

end RenderSettings

/-- What an outline shows. -/
structure OutlineSettings where
  showMethods : Bool
  showValues : Bool
  showSummary : Bool
  /-- The width in cells. -/
  width : Int
  deriving DecidableEq, Repr

namespace OutlineSettings

def default : OutlineSettings := ⟨true, true, true, 120⟩

/-- Settings are refused for a width below forty. -/
inductive Flaw where
  | narrow (width : Int)
  deriving DecidableEq, Repr

def Flaw.message : Flaw → String
  | .narrow width => "width must be >= 40, got " ++ toString width

def checked (settings : OutlineSettings) : Except Flaw OutlineSettings :=
  if settings.width < 40 then .error (.narrow settings.width) else .ok settings

end OutlineSettings

end LiterateRuby
