import LiterateRuby.Document
import LiterateRuby.Warning

/-! # Drafts of documents

A reader collects what it finds in a draft, one call at a time: units are opened and reopened by
their qualified names, contents are added to the unit they belong to, and `Draft.build` freezes
the draft into a document. A call that is refused leaves the draft as it was.
-/

namespace LiterateRuby

/-- A unit that is being collected. -/
structure UnitDraft where
  name : String
  kind : RubyUnit.Kind
  scope : List String
  /-- Whether the unit exists only because another one is nested in it. -/
  holder : Bool := false
  superclass : Option String := none
  methods : List Method := []
  constants : Entries String Constant := []
  classVariables : Entries String Constant := []
  readerNames : List String := []
  writerNames : List String := []
  accessorNames : List String := []
  attributes : List Attribute := []
  included : List String := []
  extended : List String := []
  aliases : Entries String String := []
  aliasMethods : Entries String String := []
  /-- Whether the unit was seen to contain nested units. -/
  namespaceOnly : Bool := false
  /-- The visibility of the methods that follow. -/
  visibility : Visibility := .pub
  /-- Whether the methods that follow belong to a singleton block. -/
  inSingleton : Bool := false

/-- A document that is being collected. -/
structure Draft where
  units : Entries String UnitDraft
  requires : List String
  metadata : Metadata
  filename : Option String
  built : Bool

namespace UnitDraft

/-- The unit as a class or module that is not marked as a mere namespace. -/
def plain (draft : UnitDraft) : RubyUnit where
  nature := match draft.kind with
    | .cls => .cls draft.superclass
    | .mod => .mod false
  name := draft.name
  scope := draft.scope
  methods := draft.methods
  constants := draft.constants
  classVariables := draft.classVariables
  readerNames := draft.readerNames
  writerNames := draft.writerNames
  accessorNames := draft.accessorNames
  attributes := draft.attributes
  included := draft.included
  extended := draft.extended
  aliases := draft.aliases
  aliasMethods := draft.aliasMethods

/-- Whether the unit is frozen as a mere namespace. -/
def isNamespace (draft : UnitDraft) : Bool :=
  draft.kind == .mod && (draft.holder || draft.namespaceOnly) && !draft.plain.hasOwnContent

def freeze (draft : UnitDraft) : Except RubyUnit.Flaw RubyUnit := do
  let unit ← draft.plain.checked
  if draft.isNamespace then RubyUnit.checked { unit with nature := .mod true } else return unit

end UnitDraft

namespace Draft

def empty (filename : Option String) : Draft := ⟨[], [], [], filename, false⟩

/-- Why a call is refused. -/
inductive Refusal where
  | unnamedUnit
  | otherKind (unit : String) (kind : RubyUnit.Kind)
  | unknownUnit (unit : String)
  | invalidMethod (unit : String) (flaw : Method.Flaw)
  | unnamedConstant (unit : String)
  | unnamedClassVariable (unit : String)
  | invalidAttribute (unit : String) (flaw : Attribute.Flaw)
  | alreadyAliasMethod (name unit : String)
  | alreadyAlias (name unit : String)
  | noMetadata
  | invalidUnit (flaw : RubyUnit.Flaw)
  | invalidDocument (flaw : Document.Flaw)
  | builtTwice
  deriving DecidableEq, Repr

def Refusal.message : Refusal → String
  | .unnamedUnit => "Unit name must not be empty"
  | .otherKind unit kind => "'" ++ unit ++ "' is already defined as a " ++ kind.keyword
  | .unknownUnit unit => "Unknown unit: " ++ unit
  | .invalidMethod unit flaw => "Invalid method in " ++ unit ++ ": " ++ flaw.message
  | .unnamedConstant unit => "Constant name in " ++ unit ++ " must not be empty"
  | .unnamedClassVariable unit => "Class variable name in " ++ unit ++ " must not be empty"
  | .invalidAttribute unit flaw =>
    "Invalid attribute declaration in " ++ unit ++ ": " ++ flaw.message
  | .alreadyAliasMethod name unit => "'" ++ name ++ "' in " ++ unit ++ " is already an alias_method"
  | .alreadyAlias name unit => "'" ++ name ++ "' in " ++ unit ++ " is already an alias"
  | .noMetadata => "metadata must not be None"
  | .invalidUnit flaw => flaw.message
  | .invalidDocument flaw => flaw.message
  | .builtTwice => "DocumentBuilder.build() called twice"

/-- The name under which a unit is collected. -/
def keyOf (name : String) (scope : List String) : String := Text.joinScope (scope ++ [name])

/-- The collected unit of a name. -/
def unit (draft : Draft) (key : String) : Except Refusal UnitDraft :=
  match draft.units.get? key with
  | some unit => .ok unit
  | none => .error (.unknownUnit key)

def change (draft : Draft) (key : String) (update : UnitDraft → UnitDraft) :
    Except Refusal Draft := do
  let _ ← draft.unit key
  return { draft with units := draft.units.adjust key update }

/-- Opens a unit, or reopens it if it is of the same kind. A unit that so far only held others takes
the kind it is opened with. -/
def addUnit (draft : Draft) (name : String) (kind : RubyUnit.Kind) (scope : List String) :
    Except Refusal (Draft × String) :=
  let key := keyOf name scope
  if name = "" then .error .unnamedUnit
  else
    match draft.units.get? key with
    | none => .ok ({ draft with units := draft.units.put key { name, kind, scope } }, key)
    | some unit =>
      if unit.holder then
        let units := draft.units.adjust key fun held => { held with kind, holder := false }
        .ok ({ draft with units }, key)
      else if unit.kind = kind then .ok (draft, key)
      else .error (.otherKind key unit.kind)

/-- Makes sure that a unit exists to hold nested ones. -/
def ensureHolder (draft : Draft) (name : String) (scope : List String) : Draft × String :=
  let key := keyOf name scope
  if draft.units.has key then (draft, key)
  else
    let holder : UnitDraft := { name, kind := .mod, scope, holder := true }
    ({ draft with units := draft.units.put key holder }, key)

/-- Sets the superclass of a class; for a module it only warns. -/
def setSuperclass (draft : Draft) (key superclass : String) : Outcome Refusal Draft := do
  let unit ← draft.unit key
  match unit.kind with
  | .cls => draft.change key fun unit => { unit with superclass := some superclass }
  | .mod => do
    Outcome.warn (.superclassOfModule superclass key)
    return draft

/-- What is said of a method when it is added. -/
structure MethodEntry where
  name : String
  parameters : List Parameter
  binding : Binding
  body : String
  /-- The visibility, if it is given with the method. -/
  visibility : Option Visibility
  prose : Option String

/-- The method that an entry makes in a unit: in a singleton block an instance method belongs to the
block, and without a visibility of its own it takes the active one. -/
def MethodEntry.inUnit (entry : MethodEntry) (unit : UnitDraft) : Method where
  name := entry.name
  parameters := entry.parameters
  body := entry.body
  visibility := entry.visibility.getD unit.visibility
  binding :=
    if unit.inSingleton && entry.binding == .onInstance then .inSingleton else entry.binding
  prose := entry.prose

def addMethod (draft : Draft) (key : String) (entry : MethodEntry) : Except Refusal Draft := do
  let unit ← draft.unit key
  match (entry.inUnit unit).checked with
  | .ok method => draft.change key fun unit => { unit with methods := unit.methods ++ [method] }
  | .error flaw => .error (.invalidMethod key flaw)

def isMethod (name : String) (binding : Binding) (method : Method) : Bool :=
  method.name == name && method.binding == binding

/-- Changes the visibility of the methods of a name and a binding, and says whether there are
any. -/
def setMethodVisibility (draft : Draft) (key name : String) (visibility : Visibility)
    (binding : Binding) : Except Refusal (Draft × Bool) := do
  let unit ← draft.unit key
  let update (method : Method) : Method :=
    if isMethod name binding method then { method with visibility } else method
  let changed ← draft.change key fun unit => { unit with methods := unit.methods.map update }
  return (changed, unit.methods.any (isMethod name binding))

/-- Sets the visibility of the methods that follow. -/
def setVisibility (draft : Draft) (key : String) (visibility : Visibility) : Except Refusal Draft :=
  draft.change key fun unit => { unit with visibility }

/-- Enters the singleton block, which starts public. -/
def enterSingleton (draft : Draft) (key : String) : Except Refusal Draft :=
  draft.change key fun unit => { unit with inSingleton := true, visibility := .pub }

/-- Leaves the singleton block; the active visibility stays. -/
def exitSingleton (draft : Draft) (key : String) : Except Refusal Draft :=
  draft.change key fun unit => { unit with inSingleton := false }

def addConstant (draft : Draft) (key name : String) (value : Constant) : Except Refusal Draft :=
  if name = "" then .error (.unnamedConstant key)
  else draft.change key fun unit => { unit with constants := unit.constants.put name value }

/-- A class variable's name without the signs before it. -/
def bareVariable (name : String) : List Char := name.toList.dropWhile (· == '@')

/-- Writes a class variable; any number of signs before the name become two. -/
def addClassVariable (draft : Draft) (key name : String) (value : Constant) :
    Except Refusal Draft :=
  if (bareVariable name).isEmpty then .error (.unnamedClassVariable key)
  else
    let full := String.ofList ('@' :: '@' :: bareVariable name)
    draft.change key fun unit => { unit with classVariables := unit.classVariables.put full value }

/-- Appends the items that are new; an empty text is no item. -/
def appendNew (items new : List String) : List String :=
  new.foldl (fun kept item => if item = "" || kept.contains item then kept else kept ++ [item]) items

def addDeclared (draft : Draft) (key : String) (accessor : Accessor) (names : List String) :
    Except Refusal Draft :=
  draft.change key fun unit =>
    match accessor with
    | .reader => { unit with readerNames := appendNew unit.readerNames names }
    | .writer => { unit with writerNames := appendNew unit.writerNames names }
    | .both => { unit with accessorNames := appendNew unit.accessorNames names }

/-- Adds an attribute declaration among the contents. -/
def addAttribute (draft : Draft) (key : String) (accessor : Accessor) (names : List String) :
    Except Refusal Draft :=
  match Attribute.checked accessor names with
  | .ok declaration =>
    draft.change key fun unit => { unit with attributes := unit.attributes ++ [declaration] }
  | .error flaw => .error (.invalidAttribute key flaw)

def appendOnce (items : List String) (item : String) : List String :=
  if items.contains item then items else items ++ [item]

def addInclude (draft : Draft) (key name : String) : Except Refusal Draft :=
  draft.change key fun unit => { unit with included := appendOnce unit.included name }

/-- Extends with a module. -/
def addExtend (draft : Draft) (key name : String) : Except Refusal Draft :=
  draft.change key fun unit => { unit with extended := appendOnce unit.extended name }

/-- Writes an alias statement; the new name must not be taken by the other form. -/
def addAlias (draft : Draft) (key new old : String) : Except Refusal Draft := do
  let unit ← draft.unit key
  if unit.aliasMethods.has new then .error (.alreadyAliasMethod new key)
  else draft.change key fun unit => { unit with aliases := unit.aliases.put new old }

/-- Writes an alias call; the new name must not be taken by the other form. -/
def addAliasMethod (draft : Draft) (key new old : String) : Except Refusal Draft := do
  let unit ← draft.unit key
  if unit.aliases.has new then .error (.alreadyAlias new key)
  else draft.change key fun unit => { unit with aliasMethods := unit.aliasMethods.put new old }

/-- Marks a module as containing nested units. -/
def markNamespaceOnly (draft : Draft) (key : String) : Except Refusal Draft :=
  draft.change key fun unit =>
    match unit.kind with
    | .cls => unit
    | .mod => { unit with namespaceOnly := true }

/-- Adds a required library, once. -/
def addRequire (draft : Draft) (name : String) : Draft :=
  { draft with requires := appendNew draft.requires [name] }

def setMetadata (draft : Draft) (metadata : Metadata) : Draft := { draft with metadata }

def frozen (draft : Draft) : Except Refusal Document := do
  let units ← Except.mapError .invalidUnit ((draft.units.map (·.2)).mapM UnitDraft.freeze)
  let document : Document := ⟨units, draft.requires, draft.metadata, draft.filename⟩
  document.checked.mapError .invalidDocument

/-- Builds the document; a draft is built at most once, also if it fails. -/
def build (draft : Draft) : Draft × Except Refusal Document :=
  if draft.built then (draft, .error .builtTwice)
  else ({ draft with built := true }, draft.frozen)

/-- A call on a draft. -/
inductive Call where
  | addUnit (name : String) (kind : RubyUnit.Kind) (scope : List String)
  | ensureHolder (name : String) (scope : List String)
  | setSuperclass (unit superclass : String)
  | addMethod (unit : String) (entry : MethodEntry)
  | setMethodVisibility (unit name : String) (visibility : Visibility) (binding : Binding)
  | setVisibility (unit : String) (visibility : Visibility)
  | enterSingleton (unit : String)
  | exitSingleton (unit : String)
  | addConstant (unit name : String) (value : Constant)
  | addClassVariable (unit name : String) (value : Constant)
  | addDeclared (unit : String) (accessor : Accessor) (names : List String)
  | addAttribute (unit : String) (accessor : Accessor) (names : List String)
  | addInclude (unit name : String)
  | addExtend (unit name : String)
  | addAlias (unit new old : String)
  | addAliasMethod (unit new old : String)
  | markNamespaceOnly (unit : String)
  | addRequire (name : String)
  | setMetadata (metadata : Option Metadata)

/-- What a call answers. -/
inductive Reply where
  | done
  | key (key : String)
  | found (found : Bool)
  deriving DecidableEq, Repr

def perform (draft : Draft) : Call → Outcome Refusal (Draft × Reply)
  | .addUnit name kind scope => do
    let (draft, key) ← draft.addUnit name kind scope
    return (draft, .key key)
  | .ensureHolder name scope =>
    let (draft, key) := draft.ensureHolder name scope
    return (draft, .key key)
  | .setSuperclass unit superclass => return (← draft.setSuperclass unit superclass, .done)
  | .addMethod unit entry => return (← draft.addMethod unit entry, .done)
  | .setMethodVisibility unit name visibility binding => do
    let (draft, found) ← draft.setMethodVisibility unit name visibility binding
    return (draft, .found found)
  | .setVisibility unit visibility => return (← draft.setVisibility unit visibility, .done)
  | .enterSingleton unit => return (← draft.enterSingleton unit, .done)
  | .exitSingleton unit => return (← draft.exitSingleton unit, .done)
  | .addConstant unit name value => return (← draft.addConstant unit name value, .done)
  | .addClassVariable unit name value => return (← draft.addClassVariable unit name value, .done)
  | .addDeclared unit accessor names => return (← draft.addDeclared unit accessor names, .done)
  | .addAttribute unit accessor names => return (← draft.addAttribute unit accessor names, .done)
  | .addInclude unit name => return (← draft.addInclude unit name, .done)
  | .addExtend unit name => return (← draft.addExtend unit name, .done)
  | .addAlias unit new old => return (← draft.addAlias unit new old, .done)
  | .addAliasMethod unit new old => return (← draft.addAliasMethod unit new old, .done)
  | .markNamespaceOnly unit => return (← draft.markNamespaceOnly unit, .done)
  | .addRequire name => return (draft.addRequire name, .done)
  | .setMetadata none => Outcome.fail .noMetadata
  | .setMetadata (some metadata) => return (draft.setMetadata metadata, .done)

/-- The draft after a call; a refused call leaves it as it was. -/
def after (draft : Draft) (call : Call) : Draft :=
  match (draft.perform call).result with
  | .ok (next, _) => next
  | .error _ => draft

def afterAll (draft : Draft) (calls : List Call) : Draft := calls.foldl after draft

end Draft

end LiterateRuby
