import LiterateRuby.Parameter
import LiterateRuby.Text.Case

/-! # Methods

A method has a name, parameters, a body kept as text, a visibility and a way in which it is bound.
`Method.flaw?` names what is wrong with a method that no definition can express.
-/

namespace LiterateRuby

/-- Who may call a method. -/
inductive Visibility where
  | pub
  | priv
  | prot
  deriving DecidableEq, Repr

namespace Visibility

def keyword : Visibility → String
  | .pub => "public"
  | .priv => "private"
  | .prot => "protected"

def all : List Visibility := [.pub, .priv, .prot]

def ofKeyword? (word : String) : Option Visibility :=
  all.find? fun visibility => visibility.keyword == word

/-- The visibility that a heading names, in any letter case and with blanks around it. -/
def ofText? (text : String) : Option Visibility :=
  ofKeyword? (String.ofList (Text.lower (Text.trim text.toList)))

theorem ofKeyword?_keyword (visibility : Visibility) :
    ofKeyword? visibility.keyword = some visibility := by
  cases visibility <;> decide

end Visibility

/-- How a method is bound. -/
inductive Binding where
  /-- A method of the instances. -/
  | onInstance
  /-- A method of the unit itself, defined on `self`. -/
  | onSelf
  /-- A method of another object, whose name the method name keeps before a dot. -/
  | onReceiver
  /-- A method of the unit itself, defined in its singleton block. -/
  | inSingleton
  deriving DecidableEq, Repr

structure Method where
  name : String
  parameters : List Parameter
  body : String
  visibility : Visibility
  binding : Binding
  prose : Option String
  deriving DecidableEq, Repr

namespace Method

/-- Why no definition can express a method. -/
inductive Flaw where
  | unnamed
  | dotted (name : String)
  | undotted (name : String)
  | manyForwards (name : String)
  deriving DecidableEq, Repr

def Flaw.message : Flaw → String
  | .unnamed => "method name must not be empty"
  | .dotted name => "dotted method name '" ++ name ++ "' requires OBJECT_RECEIVER kind"
  | .undotted name => "object receiver method '" ++ name ++ "' must keep its receiver"
  | .manyForwards name => "method '" ++ name ++ "' declares '...' more than once"

def isDotted (name : String) : Bool := name.toList.contains '.'

def flaw? (method : Method) : Option Flaw :=
  if method.name = "" then some .unnamed
  else if isDotted method.name && method.binding != .onReceiver then some (.dotted method.name)
  else if method.binding == .onReceiver && !isDotted method.name then some (.undotted method.name)
  else if 1 < (method.parameters.filter (· == .forward)).length then
    some (.manyForwards method.name)
  else none

def checked (method : Method) : Except Flaw Method :=
  match method.flaw? with
  | some flaw => .error flaw
  | none => .ok method

/-- Whether a method is bound to the unit itself or another object. -/
def isClassMethod (method : Method) : Bool := method.binding != .onInstance

/-- The name and the parameters. -/
def signature (method : Method) : String := method.name ++ Parameter.listText method.parameters

theorem checked_eq_ok_iff {method result : Method} :
    method.checked = .ok result ↔ method.flaw? = none ∧ result = method := by
  unfold checked
  split
  · next flaw found => simp [found]
  · next found => simp [found, eq_comm]

end Method

end LiterateRuby
