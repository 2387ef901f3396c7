import LiterateRuby.Literate.Reader
import LiterateRuby.Literate.Writer
import LiterateRuby.Ruby.Walk

/-! # Failures

All the ways in which an operation of this library can fail, with their kinds and their words.
-/

namespace LiterateRuby

/-- Something that must be given and was not. -/
inductive Absence where
  | text
  | content
  | draft
  | document
  | diagnostics
  deriving DecidableEq, Repr

def Absence.message : Absence → String
  | .text => "text must not be None"
  | .content => "Cannot load nil content"
  | .draft => "builder must not be None"
  | .document => "document must not be None"
  | .diagnostics => "diagnostics must not be None"

inductive Failure where
  | absent (absence : Absence)
  | unknownInput (format : String)
  | unknownOutput (format : String)
  | literate (fault : Literate.ReadFault)
  | source (fault : Ruby.SourceFault)
  | unwritable (fault : Render.Unwritable)
  | refused (refusal : Draft.Refusal)
  | parameter (flaw : Parameter.Flaw)
  | method (flaw : Method.Flaw)
  | value (flaw : Constant.Flaw)
  | declaration (flaw : Attribute.Flaw)
  | unit (flaw : RubyUnit.Flaw)
  | document (flaw : Document.Flaw)
  | renderSettings (flaw : RenderSettings.Flaw)
  | outlineSettings (flaw : OutlineSettings.Flaw)
  | noReason
  | noDiagnostics

namespace Failure

/-- The kinds of failure that a caller tells apart. -/
inductive Kind where
  /-- The input breaks a rule of the notation or of a document. -/
  | validation
  /-- Front matter cannot be read. -/
  | metadata
  /-- Ruby source cannot be read. -/
  | source
  /-- A value is not allowed. -/
  | value
  /-- Something of another type is needed. -/
  | type
  /-- An operation was used in the wrong order. -/
  | order
  deriving DecidableEq, Repr

def kindOfRefusal : Draft.Refusal → Kind
  | .noMetadata => .type
  | .builtTwice => .order
  | _ => .validation

/-- The kind of a failure to read the heading notation. What a data format raises has no kind here: it keeps
the class that it was raised with. -/
def kindOfReading? : Literate.ReadFault → Option Kind
  | .frontMatter (.raised _) => none
  | .frontMatter (.number _) => some .value
  | .frontMatter _ => some .metadata
  | .parameter _ => some .value
  | .number _ => some .value
  | .refused refusal => some (kindOfRefusal refusal)
  | _ => some .validation

/-- The kind of a failure. An exception that a data format raises counts as a value that is not allowed. -/
def kind : Failure → Kind
  | .absent _ => .type
  | .unknownInput _ => .validation
  | .unknownOutput _ => .validation
  | .literate fault => (kindOfReading? fault).getD .value
  | .source .empty => .validation
  | .source _ => .source
  | .unwritable ⟨.unsupported _⟩ => .type
  | .refused refusal => kindOfRefusal refusal
  | _ => .value

def diagnostics : Failure → List String
  | .source (.syntaxErrors found) => found
  | .source (.walk fault) => [fault.message]
  | _ => []

/-- The failure in words, where this library words it. -/
def message? : Failure → Option String
  | .absent absence => some absence.message
  | .unknownInput format => some ("Unknown input format: " ++ format)
  | .unknownOutput format => some ("Unknown output format: " ++ format)
  | .literate fault => fault.message?
  | .source .empty => some "Content cannot be empty"
  | .source (.syntaxErrors found) => some (Ruby.faultMessage found)
  | .source (.walk fault) => some (Ruby.faultMessage [fault.message])
  | .unwritable fault => fault.message?
  | .refused refusal => some refusal.message
  | .parameter flaw => some flaw.message
  | .method flaw => some flaw.message
  | .value flaw => some flaw.message
  | .declaration flaw => some flaw.message
  | .unit flaw => some flaw.message
  | .document flaw => some flaw.message
  | .renderSettings flaw => some flaw.message
  | .outlineSettings flaw => some flaw.message
  | .noReason => some "reason must not be empty"
  | .noDiagnostics => some "diagnostics must not be empty"

/-- The words of a broken rule, which must be given. -/
def validationText (reason : Option String) : Except Failure String :=
  match reason with
  | some "" => .error .noReason
  | some reason => .ok reason
  | none => .error .noReason

def metadataText (reason : Option String) : String :=
  Literate.FrontMatter.faultMessage (reason.getD "None")

/-- The words of a source with the given diagnostics, of which there is at least one. -/
def sourceText (diagnostics : Option (List String)) : Except Failure String :=
  match diagnostics with
  | none => .error (.absent .diagnostics)
  | some [] => .error .noDiagnostics
  | some found => .ok (Ruby.faultMessage found)

end Failure

end LiterateRuby
