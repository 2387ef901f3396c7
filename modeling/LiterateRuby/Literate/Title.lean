import LiterateRuby.Method
import LiterateRuby.Text.Word

/-! # Method titles

A title is a name, on `self` or on another object, and a parameter list in parentheses. The list
is split at the commas that stand outside brackets and quotes.
-/

namespace LiterateRuby.Literate

def closing? : Char → Option Char
  | '(' => some ')'
  | '[' => some ']'
  | '\x7b' => some '\x7d'
  | _ => none

/-- Where a splitter stands: the open brackets' closing ones, innermost first, and the open
quote. -/
structure Nesting where
  closers : List Char := []
  quote : Option Char := none
  deriving DecidableEq, Repr

/-- Whether nothing is open. -/
def Nesting.isClosed (nesting : Nesting) : Bool := nesting.closers.isEmpty && nesting.quote.isNone

def Nesting.step (nesting : Nesting) (c : Char) : Nesting :=
  match nesting.quote with
  | some quote => if c = quote then { nesting with quote := none } else nesting
  | none =>
    if c = '"' ∨ c = '\'' then { nesting with quote := some c }
    else
      match closing? c with
      | some closer => { nesting with closers := closer :: nesting.closers }
      | none =>
        if nesting.closers.head? = some c then { nesting with closers := nesting.closers.drop 1 }
        else nesting

/-- The pieces of a text between the commas outside brackets and quotes. -/
def splitCommas (nesting : Nesting) : List Char → List (List Char)
  | [] => [[]]
  | c :: rest =>
    if c = ',' && nesting.isClosed then [] :: splitCommas nesting rest
    else
      match splitCommas (nesting.step c) rest with
      | [] => [[c]]
      | piece :: more => (c :: piece) :: more

/-- The parameters of a list as they are written. -/
def splitParameters (text : List Char) : List (List Char) :=
  ((splitCommas {} text).map Text.trim).filter (!·.isEmpty)

def trimmedText (cs : List Char) : String := String.ofList (Text.trim cs)

/-- The name and the text after the sign of a parameter with a default: a name, blanks, an equals
sign and at least one more character. -/
def optionalParts? (token : List Char) : Option (List Char × List Char) :=
  let name := token.takeWhile Text.isWord
  match Text.trimStart (token.dropWhile Text.isWord) with
  | '=' :: first :: rest => if name.isEmpty then none else some (name, first :: rest)
  | _ => none

/-- The name and the text after the sign of a keyword parameter: a name and a single colon. -/
def keywordParts? (token : List Char) : Option (List Char × List Char) :=
  let name := token.takeWhile Text.isWord
  match token.dropWhile Text.isWord with
  | ':' :: rest => if name.isEmpty || rest.head? = some ':' then none else some (name, rest)
  | _ => none

/-- The parameter that a text denotes. A text that fits no other form is the name of a required
parameter. -/
def readParameter (token : List Char) : Except Parameter.Flaw Parameter :=
  match token with
  | ['.', '.', '.'] => .ok .forward
  | '&' :: name => .ok (.block (trimmedText name))
  | '*' :: '*' :: name => .ok (.keywordRest (trimmedText name))
  | '*' :: name => .ok (.rest (trimmedText name))
  | token =>
    match optionalParts? token, keywordParts? token with
    | some (name, default), _ =>
      Parameter.ofParts .optional (String.ofList name) (some (trimmedText default))
    | none, some (name, default) =>
      if Text.allBlank default then Parameter.ofParts .requiredKeyword (String.ofList name) none
      else Parameter.ofParts .optionalKeyword (String.ofList name) (some (trimmedText default))
    | none, none => Parameter.ofParts .required (String.ofList token) none

/-- What a method title says. -/
structure MethodTitle where
  name : String
  parameters : List Parameter
  binding : Binding
  deriving DecidableEq, Repr

/-- The text between the first opening and the last closing parenthesis of a title, if they are in
this order. -/
def parenthesized? (title : List Char) : Option (List Char) :=
  match title.dropWhile (· != '(') with
  | _ :: inner =>
    match inner.reverse.dropWhile (· != ')') with
    | _ :: before => some before.reverse
    | [] => none
  | [] => none

/-- How a method is bound by the name in its title, and the name that it keeps. -/
def bindingOf (name : List Char) : Binding × List Char :=
  match Text.after? "self.".toList name with
  | some bare => (.onSelf, bare)
  | none => (if name.contains '.' then .onReceiver else .onInstance, name)

def readTitle (title : List Char) : Except Parameter.Flaw MethodTitle := do
  let tokens := ((parenthesized? title).map splitParameters).getD []
  let parameters ← tokens.mapM readParameter
  let (binding, name) := bindingOf (Text.trim (title.takeWhile (· != '(')))
  return ⟨String.ofList name, parameters, binding⟩

end LiterateRuby.Literate
