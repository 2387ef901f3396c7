import LiterateRuby.Text.Line

/-! # Method parameters

One constructor per way to declare a parameter. `Parameter.text` writes a parameter as it stands
in a definition, `Parameter.ofParts` builds one from a kind, a name and a default and refuses the
combinations that no definition can hold.
-/

namespace LiterateRuby

inductive Parameter where
  | required (name : String)
  | optional (name default : String)
  | rest (name : String)
  | requiredKeyword (name : String)
  | optionalKeyword (name default : String)
  | keywordRest (name : String)
  | block (name : String)
  | forward
  deriving DecidableEq, Repr

namespace Parameter

/-- The ways to declare a parameter. -/
inductive Kind where
  | required
  | optional
  | rest
  | requiredKeyword
  | optionalKeyword
  | keywordRest
  | block
  | forward
  deriving DecidableEq, Repr

def Kind.word : Kind → String
  | .required => "required"
  | .optional => "optional"
  | .rest => "rest"
  | .requiredKeyword => "required_keyword"
  | .optionalKeyword => "optional_keyword"
  | .keywordRest => "keyword_rest"
  | .block => "block"
  | .forward => "forward"

/-- Whether a parameter of this kind may go without a name. -/
def Kind.mayBeUnnamed : Kind → Bool
  | .rest | .keywordRest | .block | .forward => true
  | _ => false

/-- Why parts do not make a parameter. -/
inductive Flaw where
  | unnamed (kind : Kind)
  | namedForward
  | missingDefault (name : String)
  | strayDefault (name : String)
  deriving DecidableEq, Repr

def Flaw.message : Flaw → String
  | .unnamed kind => kind.word ++ " parameter must have a name"
  | .namedForward => "forwarding parameter cannot have a name"
  | .missingDefault name => "optional parameter '" ++ name ++ "' must have a default"
  | .strayDefault name => "parameter '" ++ name ++ "' cannot have a default"

def ofParts (kind : Kind) (name : String) (default : Option String) : Except Flaw Parameter :=
  if name = "" && !kind.mayBeUnnamed then .error (.unnamed kind)
  else if kind = .forward && name != "" then .error .namedForward
  else
    match kind, default with
    | .optional, some value =>
      if value = "" then .error (.missingDefault name) else .ok (.optional name value)
    | .optionalKeyword, some value =>
      if value = "" then .error (.missingDefault name) else .ok (.optionalKeyword name value)
    | .optional, none | .optionalKeyword, none => .error (.missingDefault name)
    | _, some _ => .error (.strayDefault name)
    | .required, none => .ok (.required name)
    | .rest, none => .ok (.rest name)
    | .requiredKeyword, none => .ok (.requiredKeyword name)
    | .keywordRest, none => .ok (.keywordRest name)
    | .block, none => .ok (.block name)
    | .forward, none => .ok .forward

def kind : Parameter → Kind
  | .required _ => .required
  | .optional _ _ => .optional
  | .rest _ => .rest
  | .requiredKeyword _ => .requiredKeyword
  | .optionalKeyword _ _ => .optionalKeyword
  | .keywordRest _ => .keywordRest
  | .block _ => .block
  | .forward => .forward

/-- The name of a parameter, empty if it has none. -/
def name : Parameter → String
  | .required name | .optional name _ | .rest name | .requiredKeyword name
  | .optionalKeyword name _ | .keywordRest name | .block name => name
  | .forward => ""

def default? : Parameter → Option String
  | .optional _ default | .optionalKeyword _ default => some default
  | _ => none

/-- A parameter as it stands in a definition. -/
def text : Parameter → String
  | .required name => name
  | .optional name default => name ++ " = " ++ default
  | .rest name => "*" ++ name
  | .requiredKeyword name => name ++ ":"
  | .optionalKeyword name default => name ++ ": " ++ default
  | .keywordRest name => "**" ++ name
  | .block name => "&" ++ name
  | .forward => "..."

/-- Parameters as they stand in a definition, with their parentheses; nothing without parameters. -/
def listText : List Parameter → String
  | [] => ""
  | parameters => "(" ++ ", ".intercalate (parameters.map text) ++ ")"

/-- The parts of a built parameter are the given ones. -/
theorem parts_of_ofParts {kind : Kind} {name : String} {default : Option String}
    {parameter : Parameter} (built : ofParts kind name default = .ok parameter) :
    parameter.kind = kind ∧ parameter.name = name ∧ parameter.default? = default := by
  unfold ofParts at built
  split at built
  · cases built
  · split at built
    · cases built
    · next _ unnamed =>
      split at built <;> (try split at built) <;> cases built <;> simp_all [Parameter.kind,
        Parameter.name, default?]

end Parameter

end LiterateRuby
