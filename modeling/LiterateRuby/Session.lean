import LiterateRuby.Failure
import LiterateRuby.Outline.Report
import LiterateRuby.Ruby.Grammar
import LiterateRuby.Yaml.Decode
import LiterateRuby.Yaml.Write

/-! # Sessions

A session holds the document of the last text that could be read, and renders it. Reading a text
never uses what was read before; a text that cannot be read leaves the session as it was. Front
matter is a block of YAML.
-/

namespace LiterateRuby

instance Yaml.dataFormat : DataFormat := ⟨Yaml.decode, Yaml.write⟩

inductive InputFormat where
  | literate
  | ruby
  deriving DecidableEq, Repr

inductive OutputFormat where
  | ruby
  | markdown
  | literate
  deriving DecidableEq, Repr

/-- A format name in small letters without blanks around it. -/
def formatWord (name : String) : String := String.ofList (Text.lower (Text.trim name.toList))

def InputFormat.ofName? (name : String) : Option InputFormat :=
  match formatWord name with
  | "lpfm" | "markdown" | "md" => some .literate
  | "ruby" | "rb" => some .ruby
  | _ => none

def OutputFormat.ofName? (name : String) : Option OutputFormat :=
  match formatWord name with
  | "ruby" | "rb" => some .ruby
  | "markdown" | "md" => some .markdown
  | "lpfm" => some .literate
  | _ => none

/-- Reads Ruby source into a draft and builds the document. -/
def readRuby (draft : Draft) (text : String) : Outcome Ruby.SourceFault Document :=
  match Ruby.parse? text with
  | some tree => Ruby.readTree draft text tree
  | none =>
    if Text.allBlank text.toList then Outcome.fail .empty
    else Outcome.fail (.syntaxErrors ["syntax error"])

/-- Reads a text in a format; the name of its file is kept with the document. -/
def readDocument (format : InputFormat) (filename : Option String) (text : String) :
    Outcome Failure Document :=
  match format with
  | .literate => (Literate.read filename text).mapError .literate
  | .ruby => (readRuby (Draft.empty filename) text).mapError .source

/-- Renders a document, which must be given, in a format. -/
def renderDocument (format : OutputFormat) (settings : RenderSettings) (document : Option Document) :
    Outcome Failure String :=
  match document with
  | none => Outcome.fail (.absent .document)
  | some document =>
    match format with
    | .ruby => (Outcome.ofExcept (Render.ruby settings document)).mapError .unwritable
    | .markdown => (Outcome.ofExcept (Render.markdown settings document)).mapError .unwritable
    | .literate => (Literate.write settings document).mapError .unwritable

/-- Describes a document, which must be given. -/
def outlineDocument (settings : OutlineSettings) (document : Option Document) :
    Except Failure String :=
  match document with
  | none => .error (.absent .document)
  | some document => (Outline.report settings document).mapError .unwritable

/-- A document with the settings that it is rendered with. -/
structure Session where
  settings : RenderSettings
  document : Document

namespace Session

def empty (settings : RenderSettings) : Session := ⟨settings, Document.empty⟩

/-- Reads a text, which must be given, in a named format. -/
def load (session : Session) (text : Option String) (format : String) (filename : Option String) :
    Outcome Failure Session :=
  match text with
  | none => Outcome.fail (.absent .content)
  | some text =>
    match InputFormat.ofName? format with
    | none => Outcome.fail (.unknownInput format)
    | some inputFormat => do
      let document ← readDocument inputFormat filename text
      return { session with document }

/-- Renders the held document. -/
def write (session : Session) (format : OutputFormat) : Outcome Failure String :=
  renderDocument format session.settings (some session.document)

/-- Renders the held document in a named format. -/
def render (session : Session) (format : String) : Outcome Failure String :=
  match OutputFormat.ofName? format with
  | none => Outcome.fail (.unknownOutput format)
  | some outputFormat => session.write outputFormat

end Session

/-- Converts a text from one named format to another. Without a text the empty document is
rendered. -/
def convert (settings : RenderSettings) (text : Option String) (source target : String)
    (filename : Option String) : Outcome Failure String := do
  let session := Session.empty settings
  let session ← match text with
    | none => pure session
    | some text => session.load (some text) source filename
  session.render target

end LiterateRuby
