import LiterateRuby.DataFormat
import LiterateRuby.Literate.Heading
import LiterateRuby.Render.Markdown
import LiterateRuby.Warning

/-! # Writing a document in the heading notation

Each unit is a section under a heading of level one: declarations, then methods under their
titles. Front matter holds the required libraries and what the notation cannot say under a
heading, for the first unit only.
-/

namespace LiterateRuby.Literate

open DataFormat (Item)

def title (method : Method) : String :=
  Render.definedName method ++ Parameter.listText method.parameters

/-- The lines of a method body; lines that look like headings are protected by fences. -/
def bodyLines (settings : RenderSettings) (method : Method) : List String :=
  if method.body = "" then []
  else
    let lines := Text.linesOf method.body
    if lines.any fun line => looksLikeHeading line.toList then
      (Render.fence ++ settings.fenceLanguage) :: lines ++ [Render.fence]
    else lines

/-- Where the next method stands: the active visibility, whether a singleton block is open, and
whether any section heading was written. -/
structure SectionState where
  active : Visibility := .pub
  inBlock : Bool := false
  inSection : Bool := false
  deriving DecidableEq, Repr

/-- The section headings before a method and the state after them. -/
def sectionHeadings (state : SectionState) (method : Method) : List String × SectionState :=
  if method.binding = .inSingleton then
    if state.inBlock then ([], state) else (["## class << self"], ⟨.pub, true, true⟩)
  else if state.inBlock || method.visibility != state.active then
    (["## " ++ method.visibility.keyword], ⟨method.visibility, false, true⟩)
  else ([], state)

/-- The warnings for a method: a singleton block has no section for methods that are not public. -/
def methodWarnings (method : Method) : List Warning :=
  if method.binding = .inSingleton && method.visibility != .pub then
    [.visibilityDropped method.visibility method.name]
  else []

def methodSections (settings : RenderSettings) (state : SectionState) :
    List Method → List (List String)
  | [] => []
  | method :: rest =>
    let (headings, state) := sectionHeadings state method
    let level := if state.inSection then "###" else "##"
    headings.map (fun heading => [heading]) ++
      ((level ++ " " ++ title method) :: bodyLines settings method) ::
        methodSections settings state rest

def unitHeading (unit : RubyUnit) : String :=
  match unit.kind with
  | .mod => "# module " ++ Text.joinScope unit.path
  | .cls => "# " ++ Text.joinScope unit.path

/-- The declarations of a unit: values, then attributes. -/
def declarationLines (unit : RubyUnit) : Except Render.Unwritable (List String) := do
  let classLevel ← Render.assignments unit.classVariables
  let constants ← Render.assignments unit.constants
  return classLevel ++ constants ++ Render.attributeLines unit

/-- The lines of a unit, and what they leave out. -/
def unitLines (settings : RenderSettings) (unit : RubyUnit) :
    Outcome Render.Unwritable (List String) := do
  let declarations ← declarationLines unit
  let sections := methodSections settings {} unit.methods
  ⟨unit.methods.flatMap methodWarnings, .ok ⟨⟩⟩
  return Render.joinSections ([unitHeading unit] :: declarations :: sections)

/-- The entries of front matter: the required libraries, and the superclass, mixins and aliases of
the first unit. -/
def frontMatter (document : Document) (first : Option RubyUnit) : List (String × Item) :=
  let texts (name : String) (values : List String) : List (String × Item) :=
    if values.isEmpty then [] else [(name, .texts values)]
  let pairs (name : String) (values : Entries String String) : List (String × Item) :=
    if values.isEmpty then [] else [(name, .entries values)]
  texts "require" document.requires ++
    match first with
    | none => []
    | some unit =>
      (unit.superclass?.map fun name => ("inherits_from", Item.text name)).toList ++
        texts "include" unit.included ++ texts "extend" unit.extended ++
        pairs "aliases" unit.aliases ++ pairs "alias_method" unit.aliasMethods

/-- The lines of front matter between its delimiters; no entries need no front matter. -/
def frontMatterLines [DataFormat] (entries : List (String × Item)) : List String :=
  if entries.isEmpty then [] else "---" :: DataFormat.write entries ++ ["---"]

/-- The warning for a unit after the first: the parts that only front matter could hold. -/
def droppedParts (unit : RubyUnit) : List Warning :=
  let parts :=
    (if unit.superclass?.isSome then ["superclass"] else []) ++
      (if unit.hasMixins then ["include/extend"] else []) ++
      (if unit.hasAliases then ["aliases"] else [])
  if parts.isEmpty then [] else [.partsDropped parts unit.qualifiedName]

/-- A document in the heading notation. Modules that only hold nested units have no section; a
document without other units and without required libraries is no text. -/
def write [DataFormat] (settings : RenderSettings) (document : Document) : Outcome Render.Unwritable String := do
  let units := document.units.filter (!·.isNamespaceOnly)
  if units.isEmpty && document.requires.isEmpty then return ""
  else do
    ⟨(units.drop 1).flatMap droppedParts, .ok ⟨⟩⟩
    let front := frontMatterLines (frontMatter document units.head?)
    let sections ← units.mapM (unitLines settings)
    return "\n".intercalate (Render.joinSections (front :: sections)) ++ "\n"

end LiterateRuby.Literate
