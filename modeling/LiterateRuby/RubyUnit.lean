import LiterateRuby.Constant
import LiterateRuby.Method

/-! # Classes and modules

A unit is a class or a module with the units around it (`scope`), its methods, values, attributes,
mixins and aliases. Its path is its scope followed by its own name, which may itself be scoped.
`RubyUnit.flaw?` names the first rule that a unit breaks.
-/

namespace LiterateRuby

/-- The three attribute declarations. -/
inductive Accessor where
  | reader
  | writer
  | both
  deriving DecidableEq, Repr

namespace Accessor

def keyword : Accessor → String
  | .reader => "attr_reader"
  | .writer => "attr_writer"
  | .both => "attr_accessor"

/-- All declarations in the order in which they are written. -/
def all : List Accessor := [.reader, .writer, .both]

def ofKeyword? (word : String) : Option Accessor := all.find? fun accessor => accessor.keyword == word

end Accessor

/-- An attribute declaration among the contents of a unit. -/
structure Attribute where
  accessor : Accessor
  names : List String
  deriving DecidableEq, Repr

namespace Attribute

/-- Why a declaration cannot stand. -/
inductive Flaw where
  | noNames (accessor : Accessor)
  | emptyName (accessor : Accessor)
  deriving DecidableEq, Repr

def Flaw.message : Flaw → String
  | .noNames accessor => accessor.keyword ++ " declaration must name at least one attribute"
  | .emptyName accessor => accessor.keyword ++ " attribute name must not be empty"

def checked (accessor : Accessor) (names : List String) : Except Flaw Attribute :=
  if names.isEmpty then .error (.noNames accessor)
  else if names.contains "" then .error (.emptyName accessor)
  else .ok ⟨accessor, names⟩

end Attribute

namespace RubyUnit

inductive Kind where
  | cls
  | mod
  deriving DecidableEq, Repr

namespace Kind

def keyword : Kind → String
  | .cls => "class"
  | .mod => "module"

def ofKeyword? (word : String) : Option Kind := [Kind.cls, .mod].find? fun kind => kind.keyword == word

end Kind

/-- What only a class has, and what only a module has. -/
inductive Nature where
  /-- A class, with the superclass that it names. -/
  | cls (superclass : Option String)
  /-- A module, and whether it stands only for the units nested in it. -/
  | mod (namespaceOnly : Bool)
  deriving DecidableEq, Repr

end RubyUnit

structure RubyUnit where
  nature : RubyUnit.Nature
  name : String
  scope : List String
  methods : List Method
  constants : Entries String Constant
  classVariables : Entries String Constant
  /-- Names declared by front matter, per declaration. -/
  readerNames : List String
  writerNames : List String
  accessorNames : List String
  /-- Declarations among the contents. -/
  attributes : List Attribute
  included : List String
  extended : List String
  /-- New name to old name, written as an alias statement. -/
  aliases : Entries String String
  /-- New name to old name, written as a call with two symbols. -/
  aliasMethods : Entries String String

namespace RubyUnit

def kind (unit : RubyUnit) : Kind :=
  match unit.nature with
  | .cls _ => .cls
  | .mod _ => .mod

/-- The superclass of a class that names one. -/
def superclass? (unit : RubyUnit) : Option String :=
  match unit.nature with
  | .cls superclass => superclass.filter (· != "")
  | .mod _ => none

/-- Whether a unit is a module that stands only for the units nested in it. -/
def isNamespaceOnly (unit : RubyUnit) : Bool :=
  match unit.nature with
  | .cls _ => false
  | .mod namespaceOnly => namespaceOnly

def path (unit : RubyUnit) : List String := unit.scope ++ [unit.name]

def qualifiedName (unit : RubyUnit) : String := Text.joinScope unit.path

/-- The names that front matter declares with one declaration. -/
def declared (unit : RubyUnit) : Accessor → List String
  | .reader => unit.readerNames
  | .writer => unit.writerNames
  | .both => unit.accessorNames

/-- All names of one declaration: those of front matter first, each name once. -/
def attributeNames (unit : RubyUnit) (accessor : Accessor) : List String :=
  let inline := unit.attributes.filter (·.accessor == accessor)
  Text.distinct (unit.declared accessor ++ inline.flatMap (·.names))

/-- Whether front matter declares any attribute. -/
def hasDeclared (unit : RubyUnit) : Bool :=
  Accessor.all.any fun accessor => !(unit.declared accessor).isEmpty

def hasAttributes (unit : RubyUnit) : Bool := unit.hasDeclared || !unit.attributes.isEmpty

def hasMixins (unit : RubyUnit) : Bool := !unit.included.isEmpty || !unit.extended.isEmpty

/-- Whether a unit has an alias of either form. -/
def hasAliases (unit : RubyUnit) : Bool := !unit.aliases.isEmpty || !unit.aliasMethods.isEmpty

/-- Whether a unit holds anything besides nested units. -/
def hasOwnContent (unit : RubyUnit) : Bool :=
  !unit.methods.isEmpty || !unit.constants.isEmpty || !unit.classVariables.isEmpty ||
    unit.hasAttributes || unit.hasMixins || unit.hasAliases

/-- The rules that a unit can break. -/
inductive Flaw where
  | unnamed
  | emptyNameSegment (name : String)
  | emptyScopeSegment (name : String)
  | badClassVariable (variableName : String)
  | aliasedTwice (name : String) (aliases : List String)
  | emptySuperclass (name : String)
  | namespaceWithContent (name : String)
  deriving DecidableEq, Repr

def Flaw.message : Flaw → String
  | .unnamed => "unit name must not be empty"
  | .emptyNameSegment name => "unit name '" ++ name ++ "' contains an empty segment"
  | .emptyScopeSegment name => "namespace of '" ++ name ++ "' contains an empty segment"
  | .badClassVariable variableName =>
    "class variable '" ++ variableName ++ "' must start with '@@'"
  | .aliasedTwice name aliases =>
    "'" ++ name ++ "' declares " ++ Datum.display (.list (aliases.map .str)) ++
      " as both alias and alias_method"
  | .emptySuperclass name => "superclass of '" ++ name ++ "' must not be empty string"
  | .namespaceWithContent name => "namespace-only module '" ++ name ++ "' must not have own content"

/-- The names that are given by both forms of alias, in ascending order. -/
def aliasOverlap (unit : RubyUnit) : List String :=
  (unit.aliases.keys.filter fun name => unit.aliasMethods.has name).mergeSort (fun a b => !(b < a))

def flaw? (unit : RubyUnit) : Option Flaw :=
  if unit.name = "" then some .unnamed
  else if (Text.scopeSegments unit.name).contains "" then some (.emptyNameSegment unit.name)
  else if unit.scope.contains "" then some (.emptyScopeSegment unit.name)
  else
    match unit.classVariables.keys.find? fun name => (Text.after? ['@', '@'] name.toList).isNone with
    | some name => some (.badClassVariable name)
    | none =>
      if unit.aliasOverlap.isEmpty then
        match unit.nature with
        | .cls superclass =>
          if superclass = some "" then some (.emptySuperclass unit.name) else none
        | .mod namespaceOnly =>
          if namespaceOnly && unit.hasOwnContent then some (.namespaceWithContent unit.name) else none
      else some (.aliasedTwice unit.name unit.aliasOverlap)

def checked (unit : RubyUnit) : Except Flaw RubyUnit :=
  match unit.flaw? with
  | some flaw => .error flaw
  | none => .ok unit

theorem checked_eq_ok_iff {unit result : RubyUnit} :
    unit.checked = .ok result ↔ unit.flaw? = none ∧ result = unit := by
  unfold checked
  split
  · next flaw found => simp [found]
  · next found => simp [found, eq_comm]

end RubyUnit

end LiterateRuby
