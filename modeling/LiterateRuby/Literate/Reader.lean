import LiterateRuby.Draft
import LiterateRuby.Literate.Declaration
import LiterateRuby.Literate.Filename
import LiterateRuby.Literate.FrontMatter
import LiterateRuby.Literate.Title

/-! # Reading the heading notation

A heading of level one opens a unit. Under it a heading of level two is a visibility, the
singleton block or a method, one of level three a method. What stands between two headings belongs
to the first: it is the body of a method, or a list of declarations of the unit. Front matter
describes the unit that the text opens first.
-/

namespace LiterateRuby.Literate

open Number (TooManyDigits)

/-- Why a text cannot be read. -/
inductive ReadFault where
  | empty
  | noUnitHeading
  | headingOutsideUnit (title : String)
  | badUnitHeading (title : String)
  | unknownType (declared : String)
  | frontMatter (fault : FrontMatter.Fault)
  | parameter (flaw : Parameter.Flaw)
  | number (fault : TooManyDigits)
  | refused (refusal : Draft.Refusal)
  deriving DecidableEq, Repr

/-- Where a reader stands. -/
structure Position where
  draft : Draft
  /-- The open unit. -/
  unit : Option String := none
  /-- Whether a unit was opened before. -/
  opened : Bool := false
  /-- The method whose body is being collected. -/
  method : Option MethodTitle := none
  /-- The lines since the last heading, last first. -/
  buffer : List (List Char) := []

abbrev Reading := Outcome ReadFault

def call (result : Except Draft.Refusal α) : Reading α := Outcome.ofExcept (result.mapError .refused)

/-- The name and the kind in a unit heading whose title says the kind. -/
def kindInTitle? (title : List Char) : Option (RubyUnit.Kind × List Char) :=
  [RubyUnit.Kind.cls, .mod].findSome? fun kind =>
    match Text.after? kind.keyword.toList title with
    | some (gap :: rest) =>
      if Text.isBlank gap && !(Text.trimStart rest).isEmpty then some (kind, Text.trim rest) else none
    | _ => none

/-- Refuses values with an integer that has too many digits to be written. -/
def worded (values : List Datum) : Reading PUnit :=
  Outcome.ofExcept ((Datum.checkWords values).mapError .number)

def takeNames (key : String) (value : Option Datum) : Reading (List String) := do
  let names ← FrontMatter.namesOf key value
  worded (FrontMatter.nameData value)
  return names

/-- The mapping of names to names under a key of front matter. -/
def takePairs (metadata : Metadata) (key : String) : Reading (List (String × String)) := do
  let pairs ← FrontMatter.namePairs metadata key
  worded (FrontMatter.pairData (FrontMatter.entriesIn (metadata.get? key)))
  return pairs

/-- The mapping of names to values under a key of front matter. -/
def takeValues (metadata : Metadata) (key : String) : Reading (List (String × Constant)) := do
  let pairs ← FrontMatter.valuePairs metadata key
  worded (FrontMatter.valueData (FrontMatter.entriesIn (metadata.get? key)))
  return pairs

/-- The kind that front matter declares, a class unless it says otherwise. -/
def declaredKind (metadata : Metadata) : Except ReadFault RubyUnit.Kind :=
  match metadata.get? "type" with
  | none | some .null => .ok .cls
  | some declared => do
    (Datum.checkWords [declared]).mapError .number
    let word := String.ofList (Text.lower (Text.trim declared.text.toList))
    match RubyUnit.Kind.ofKeyword? word with
    | some kind => .ok kind
    | none => .error (.unknownType declared.text)

def forEach (items : List α) (change : Draft → α → Except Draft.Refusal Draft) (draft : Draft) :
    Reading Draft :=
  call (items.foldlM change draft)

def applyFrontMatter (metadata : Metadata) (kind : RubyUnit.Kind) (unit : String) (draft : Draft) :
    Reading Draft := do
  let draft ← match (metadata.get? "inherits_from").filter Datum.isGiven with
    | none => pure draft
    | some superclass =>
      match kind with
      | .cls => do
        worded [superclass]
        (draft.setSuperclass unit superclass.text).mapError .refused
      | .mod => do
        Outcome.warn (.inheritanceOfModule unit)
        pure draft
  let declare (draft : Draft) (accessor : Accessor) (key : String) : Reading Draft := do
    let inner ← takeNames key (FrontMatter.nested? metadata "attr" key)
    let outer ← takeNames accessor.keyword (metadata.get? accessor.keyword)
    let names := (inner ++ outer).map fun name => String.ofList (Text.dropStart [':'] name.toList)
    call (draft.addDeclared unit accessor names)
  let draft ← declare draft .reader "reader"
  let draft ← declare draft .writer "writer"
  let draft ← declare draft .both "accessor"
  let draft ← forEach (← takeNames "include" (metadata.get? "include"))
    (fun draft name => draft.addInclude unit name) draft
  let draft ← forEach (← takeNames "extend" (metadata.get? "extend"))
    (fun draft name => draft.addExtend unit name) draft
  let draft ← forEach (← takeValues metadata "constants")
    (fun draft (name, value) => draft.addConstant unit name value) draft
  let draft ← forEach (← takeValues metadata "class_variables")
    (fun draft (name, value) => draft.addClassVariable unit name value) draft
  let draft ← forEach (← takePairs metadata "aliases")
    (fun draft (new, old) => draft.addAlias unit new old) draft
  forEach (← takePairs metadata "alias_method")
    (fun draft (new, old) => draft.addAliasMethod unit new old) draft

/-- Makes sure that each part of a scope inside a given one exists, outermost first. -/
def ensureHolders (above : List String) (draft : Draft) : List String → Draft
  | [] => draft
  | name :: rest => ensureHolders (above ++ [name]) (draft.ensureHolder name above).1 rest

def openUnit (metadata : Metadata) (position : Position) (title : List Char) : Reading Position := do
  let (kind, title) ← match kindInTitle? title with
    | some (kind, title) => pure (kind, title)
    | none => do
      let kind ← declaredKind metadata
      pure (kind, title)
  let segments := (Text.splitScope title).map trimmedText
  let scope := segments.dropLast
  let name := segments.getLast?.getD ""
  if segments.contains "" then
    Outcome.fail (.badUnitHeading (String.ofList title))
  else do
    let draft := ensureHolders [] position.draft scope
    let (draft, unit) ← call (draft.addUnit name kind scope)
    let draft ← call (draft.setVisibility unit .pub)
    let draft ← call (draft.exitSingleton unit)
    let draft ←
      if position.opened then pure draft else applyFrontMatter metadata kind unit draft
    return { position with draft, unit := some unit, opened := true, method := none }

/-- Adds what a line under a unit heading declares. -/
def declareLine (unit : String) (draft : Draft) (line : List Char) : Except ReadFault Draft :=
  match readDeclaration (Text.trim line) with
  | .attributes accessor names =>
    if names.isEmpty then .ok draft
    else (draft.addAttribute unit accessor names).mapError .refused
  | .constant name value => do
    let value ← (readValue value).mapError .number
    (draft.addConstant unit name value).mapError .refused
  | .classVariable name value => do
    let value ← (readValue value).mapError .number
    (draft.addClassVariable unit name value).mapError .refused
  | .nothing => .ok draft

/-- Hands the collected lines to the method or the unit that they belong to. -/
def flush (position : Position) : Except ReadFault Position :=
  let content := Text.trim (Text.unlines position.buffer.reverse)
  let cleared := { position with buffer := [], method := none }
  match position.unit, position.method with
  | some unit, some method => do
    let entry : Draft.MethodEntry :=
      ⟨method.name, method.parameters, method.binding, String.ofList (unwrapFence content), none, none⟩
    let draft ← (position.draft.addMethod unit entry).mapError .refused
    return { cleared with draft }
  | some unit, none =>
    if content.isEmpty then .ok cleared
    else do
      let draft ← (Text.lines content).foldlM (declareLine unit) position.draft
      return { cleared with draft }
  | none, _ => .ok cleared

/-- The title of the heading that opens a singleton block. -/
def singletonTitle : List Char := "class << self".toList

/-- Takes note of the method that a title names. -/
def openMethod (position : Position) (title : List Char) : Except ReadFault Position := do
  let method ← (readTitle title).mapError .parameter
  return { position with method := some method }

def readHeading (metadata : Metadata) (position : Position) (heading : Heading) : Reading Position :=
  if heading.level = 1 then openUnit metadata position heading.title
  else
    match position.unit with
    | none => Outcome.fail (.headingOutsideUnit (String.ofList heading.title))
    | some unit =>
      if heading.level = 3 then openMethod position heading.title
      else
        match Visibility.ofText? (String.ofList heading.title) with
        | some visibility => do
          let draft ← call (position.draft.exitSingleton unit)
          let draft ← call (draft.setVisibility unit visibility)
          return { position with draft, method := none }
        | none =>
          if heading.title = singletonTitle then do
            let draft ← call (position.draft.enterSingleton unit)
            return { position with draft, method := none }
          else do
            let draft ← call (position.draft.exitSingleton unit)
            openMethod { position with draft } heading.title

def readLine (metadata : Metadata) (position : Position) : Line → Reading Position
  | .content text => return { position with buffer := text :: position.buffer }
  | .heading heading => do
    let position ← flush position
    readHeading metadata position heading

def readLines (metadata : Metadata) (position : Position) : List Line → Reading Position
  | [] => return position
  | line :: rest => do
    let position ← readLine metadata position line
    readLines metadata position rest

/-- The unit name that a text without a heading of level one takes from its file, if it has any
structure. -/
def inferredName? (filename : Option String) (frontMatter : FrontMatter) (lines : List Line) :
    Option String :=
  let isStructured := (headings lines).any (·.level == 2) || frontMatter.present
  match filename with
  | some name => if isStructured then some (unitNameOf name) |>.filter (· != "") else none
  | none => none

/-- Reads a text into a draft. -/
def readInto [DataFormat] (draft : Draft) (filename : Option String) (text : String) : Reading Draft := do
  let text := Text.trim (Text.unixLines text.toList)
  if text.isEmpty then Outcome.fail .empty
  else do
    let frontMatter ← Outcome.ofExcept ((FrontMatter.split text).mapError ReadFault.frontMatter)
    let metadata := frontMatter.metadata
    let draft := draft.setMetadata metadata
    let draft := (← takeNames "require" (metadata.get? "require")).foldl Draft.addRequire draft
    let lines := scan false (Text.lines frontMatter.body)
    let start : Position := { draft }
    let start ←
      if (headings lines).any (·.level == 1) then pure start
      else
        match inferredName? filename frontMatter lines with
        | some name => openUnit metadata start name.toList
        | none => Outcome.fail .noUnitHeading
    let position ← readLines metadata start lines
    let position ← flush position
    return position.draft

/-- Reads a text into a document. -/
def read [DataFormat] (filename : Option String) (text : String) : Reading Document := do
  let draft ← readInto (Draft.empty filename) filename text
  call draft.build.2

/-- The fault in words, where this library words it. -/
def ReadFault.message? : ReadFault → Option String
  | .empty => some "Content cannot be empty"
  | .noUnitHeading => some "LPFM content must contain at least one H1 heading"
  | .headingOutsideUnit title => some ("Heading '" ++ title ++ "' appears before any H1 heading")
  | .badUnitHeading title => some ("Invalid unit heading: " ++ title)
  | .unknownType declared => some ("Unknown unit type: " ++ declared)
  | .frontMatter fault => fault.message?
  | .parameter flaw => some flaw.message
  | .number _ => none
  | .refused refusal => some refusal.message

end LiterateRuby.Literate
