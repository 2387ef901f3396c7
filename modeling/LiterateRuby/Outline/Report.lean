import LiterateRuby.Outline.Diagram
import LiterateRuby.Outline.Table
import LiterateRuby.Render.Ruby

/-! # The outline of a document

An outline has a heading with the number of units, a diagram of the forest of namespaces, and a
table that counts the parts of each unit. Names come from the document, so they are escaped before
they become part of a label.
-/

namespace LiterateRuby.Outline

open Render

/-- Names separated by commas, as part of a label. -/
def listed (names : List String) : String := escape (", ".intercalate names)

def visibilityStyle : Visibility → String
  | .pub => "green"
  | .prot => "yellow"
  | .priv => "red"

def methodLabel (method : Method) : String :=
  let receiver := if method.binding = .onSelf ∨ method.binding = .inSingleton then "self." else ""
  styled (visibilityStyle method.visibility) method.visibility.keyword ++ " def " ++
    escape (receiver ++ method.signature) ++
    if method.binding = .inSingleton then " " ++ styled "dim" "(class << self)" else ""

def unitLabel (unit : RubyUnit) : String :=
  let opening := styled "bold cyan" unit.kind.keyword ++ " " ++ escape unit.qualifiedName
  match unit.superclass? with
  | some superclass => opening ++ " < " ++ escape superclass
  | none => opening

/-- A word and names, if there are any. -/
def namesLabel (word : String) (names : List String) : List String :=
  if names.isEmpty then [] else [word ++ " " ++ listed names]

def valueLabels (values : Entries String Constant) : Except Unwritable (List String) :=
  values.mapM fun (name, value) => return escape name ++ " = " ++ escape (← literal value)

def aliasLabels (aliases : Entries String String) : List String :=
  aliases.map fun (new, old) => "alias " ++ escape new ++ " → " ++ escape old

def partLabels (settings : OutlineSettings) (unit : RubyUnit) : Except Unwritable (List String) := do
  let mixins := namesLabel "include" unit.included ++ namesLabel "extend" unit.extended
  let values ←
    if settings.showValues then valueLabels (unit.classVariables ++ unit.constants) else pure []
  let attributes := Accessor.all.flatMap fun accessor =>
    namesLabel accessor.keyword (unit.attributeNames accessor)
  let methods := if settings.showMethods then unit.methods.map methodLabel else []
  return mixins ++ values ++ attributes ++ methods ++ aliasLabels unit.aliases ++
    aliasLabels unit.aliasMethods

/-- The label of a module around units. -/
def wrapperLabel (name : String) : String :=
  styled "dim" ("module " ++ escape name) ++ " " ++ styled "dim" "(namespace)"

mutual

def branchDiagram (settings : OutlineSettings) : Branch → Except Unwritable Diagram
  | .node name unit children => do
    let (label, parts) ← match unit with
      | none => pure (wrapperLabel name, [])
      | some unit =>
        if unit.isNamespaceOnly then pure (wrapperLabel name, [])
        else pure (unitLabel unit, ← partLabels settings unit)
    let below ← branchDiagrams settings children
    return .node label (parts.map (.node · []) ++ below)

def branchDiagrams (settings : OutlineSettings) : List Branch → Except Unwritable (List Diagram)
  | [] => return []
  | branch :: rest => return (← branchDiagram settings branch) :: (← branchDiagrams settings rest)

end

def diagram (settings : OutlineSettings) (document : Document) : Except Unwritable Diagram :=
  return .node "Document" (← branchDiagrams settings (Branch.forest document.units))

/-- The table that counts the parts of the units. -/
def summary (units : List RubyUnit) : Table :=
  let counted (count : RubyUnit → Nat) : List String := units.map fun unit => toString (count unit)
  let attributes (unit : RubyUnit) : Nat :=
    Number.total (Accessor.all.map fun accessor => (unit.attributeNames accessor).length)
  ⟨"Units", [
    ⟨"Unit", .left, units.map (escape ·.qualifiedName)⟩,
    ⟨"Kind", .left, units.map (·.kind.keyword)⟩,
    ⟨"Methods", .right, counted (·.methods.length)⟩,
    ⟨"Constants", .right, counted fun unit => unit.constants.length + unit.classVariables.length⟩,
    ⟨"Attributes", .right, counted attributes⟩]⟩

/-- A line with a title in its middle. -/
def ruleLine (width : Nat) (title : List Char) : List Char :=
  let before := (width - Text.cells title) / 2 - 1
  let after := width - before - Text.cells title - 2
  List.replicate before '─' ++ ' ' :: title ++ ' ' :: List.replicate after '─'

def headingLabels (document : Document) : List String :=
  let count (kind : RubyUnit.Kind) : String := toString (document.unitsOf kind).length
  let units := "Units: " ++ toString document.units.length ++ " (classes: " ++ count .cls ++
    ", modules: " ++ count .mod ++ ")"
  let requires :=
    if document.requires.isEmpty then [] else ["Requires: " ++ listed document.requires]
  let file := match document.filename with
    | none => []
    | some "" => []
    | some filename => ["File: " ++ escape filename]
  units :: requires ++ file

def report (settings : OutlineSettings) (document : Document) : Except Unwritable String := do
  let width := settings.width.toNat
  let heading := ruleLine width "DOCUMENT OUTLINE".toList ::
    (headingLabels document).flatMap fun label => wrap width (plain label)
  let drawn := (← diagram settings document).lines width
  let counts :=
    if settings.showSummary && !document.units.isEmpty then [] :: (summary document.units).lines width
    else []
  return textOf ((heading ++ [] :: drawn ++ counts).map String.ofList)

end LiterateRuby.Outline
