import LiterateRuby.Forest
import LiterateRuby.Render.Lines
import LiterateRuby.Settings

/-! # Ruby code of a document

Required libraries come first, then the forest of namespaces. The body of a unit has its parts in
a fixed order: mixins, class variables and constants, attributes, methods, aliases, nested units.

Methods are written as statements: a visibility keyword where the visibility changes, definitions,
and a singleton block for each run of methods that belong to one. The block starts public and does
not change the visibility around it.
-/

namespace LiterateRuby.Render

/-- Why a document cannot be rendered: a value has no literal. -/
structure Unwritable where
  cause : Constant.NoLiteral
  deriving DecidableEq, Repr

/-- The failure in words, where this library words it. -/
def Unwritable.message? : Unwritable → Option String
  | ⟨.unsupported typeName⟩ => some ("unsupported constant value type: " ++ typeName)
  | ⟨.number _⟩ => none

def literal (value : Constant) : Except Unwritable String := value.literal.mapError Unwritable.mk

def requireLine (name : String) : String :=
  if name.toList.contains '\'' then "require \"" ++ name ++ "\"" else "require '" ++ name ++ "'"

def symbols (names : List String) : String := ", ".intercalate (names.map fun name => ":" ++ name)

def attributeLine (accessor : Accessor) (names : List String) : String :=
  accessor.keyword ++ " " ++ symbols names

/-- The declarations of a unit: those of front matter, then those among its contents. -/
def attributeLines (unit : RubyUnit) : List String :=
  let declared := Accessor.all.filter fun accessor => !(unit.declared accessor).isEmpty
  declared.map (fun accessor => attributeLine accessor (unit.declared accessor)) ++
    unit.attributes.map fun declaration => attributeLine declaration.accessor declaration.names

def assignments (values : Entries String Constant) : Except Unwritable (List String) :=
  values.mapM fun (name, value) => return name ++ " = " ++ (← literal value)

inductive Step where
  | keyword (visibility : Visibility)
  | definition (method : Method)
  deriving DecidableEq, Repr

/-- A statement of a unit body that concerns methods. -/
inductive Statement where
  | step (step : Step)
  | singleton (steps : List Step)
  deriving DecidableEq, Repr

/-- A definition, after its keyword if the visibility changes. -/
def stepsOf (active : Visibility) (method : Method) : List Step :=
  if method.visibility = active then [.definition method]
  else [.keyword method.visibility, .definition method]

/-- The definitions of a body with the keywords they need. -/
def steps (active : Visibility) : List Method → List Step
  | [] => []
  | method :: rest => stepsOf active method ++ steps method.visibility rest

/-- The singleton block of the methods collected for one. -/
def closeBlock (block : List Method) : List Statement :=
  if block.isEmpty then [] else [.singleton (steps .pub block)]

/-- The statements of a list of methods, when some methods of a singleton block were already
collected. -/
def statementsFrom (active : Visibility) (block : List Method) : List Method → List Statement
  | [] => closeBlock block
  | method :: rest =>
    if method.binding = .inSingleton then statementsFrom active (block ++ [method]) rest
    else
      closeBlock block ++ (stepsOf active method).map .step ++
        statementsFrom method.visibility [] rest

def statements (methods : List Method) : List Statement := statementsFrom .pub [] methods

def proseLines (settings : RenderSettings) (method : Method) : List String :=
  match method.prose with
  | some prose =>
    if settings.proseAsComments && prose != "" then
      (Text.linesOf prose).map fun line =>
        String.ofList (Text.trimEnd ('#' :: ' ' :: line.toList))
    else []
  | none => []

def definedName (method : Method) : String :=
  if method.binding = .onSelf then "self." ++ method.name else method.name

def definitionLines (settings : RenderSettings) (method : Method) : List String :=
  let body := if method.body = "" then [] else Text.linesOf method.body
  proseLines settings method ++
    ["def " ++ definedName method ++ Parameter.listText method.parameters] ++
    indentLines settings.indent body ++ ["end"]

def stepLines (settings : RenderSettings) : Step → List String
  | .keyword visibility => [visibility.keyword]
  | .definition method => definitionLines settings method

def statementLines (settings : RenderSettings) : Statement → List String
  | .step step => stepLines settings step
  | .singleton steps =>
    "class << self" ::
      indentLines settings.indent (joinSections (steps.map (stepLines settings))) ++ ["end"]

def methodLines (settings : RenderSettings) (methods : List Method) : List String :=
  joinSections ((statements methods).map (statementLines settings))

/-- The lines of both forms of alias. -/
def aliasLines (unit : RubyUnit) : List String :=
  unit.aliases.map (fun (new, old) => "alias " ++ new ++ " " ++ old) ++
    unit.aliasMethods.map fun (new, old) => "alias_method :" ++ new ++ ", :" ++ old

/-- The sections of a unit body, nested units apart. -/
def unitSections (settings : RenderSettings) (unit : RubyUnit) :
    Except Unwritable (List (List String)) := do
  let mixins := unit.included.map ("include " ++ ·) ++ unit.extended.map ("extend " ++ ·)
  let classLevel ← assignments unit.classVariables
  let constants ← assignments unit.constants
  return [mixins, classLevel ++ constants, attributeLines unit, methodLines settings unit.methods,
    aliasLines unit]

def header (unit : RubyUnit) : String :=
  let opening := unit.kind.keyword ++ " " ++ unit.name
  match unit.superclass? with
  | some superclass => opening ++ " < " ++ superclass
  | none => opening

mutual

def branchLines (settings : RenderSettings) : Branch → Except Unwritable (List String)
  | .node name unit children => do
    let nested := joinSections (← branchLinesAll settings children)
    let wrapper := ["module " ++ name] ++ indentLines settings.indent nested ++ ["end"]
    match unit with
    | none => return wrapper
    | some unit =>
      if unit.isNamespaceOnly then return wrapper
      else do
        let body := joinSections ((← unitSections settings unit) ++ [nested])
        return header unit :: indentLines settings.indent body ++ ["end"]

def branchLinesAll (settings : RenderSettings) : List Branch → Except Unwritable (List (List String))
  | [] => return []
  | branch :: rest => return (← branchLines settings branch) :: (← branchLinesAll settings rest)

end

def rubyLines (settings : RenderSettings) (document : Document) : Except Unwritable (List String) := do
  let branches ← branchLinesAll settings (Branch.forest document.units)
  return joinSections (document.requires.map requireLine :: branches)

/-- A document as Ruby code; an empty document is no code. -/
def ruby (settings : RenderSettings) (document : Document) : Except Unwritable String :=
  textOf <$> rubyLines settings document

end LiterateRuby.Render
