import LiterateRuby.Method

/-! # Warnings

What a reading or writing sets aside without failing. A computation that can warn and fail is an
`Outcome`: its warnings in order and its result.
-/

namespace LiterateRuby

/-- Something that was set aside. -/
inductive Warning where
  /-- A module was given a superclass. -/
  | superclassOfModule (superclass unit : String)
  /-- Front matter names a superclass for a module. -/
  | inheritanceOfModule (unit : String)
  /-- Front matter holds a mapping where names are expected; its keys are taken. -/
  | namesExpected (key : String)
  /-- Front matter holds something else where a mapping is expected. -/
  | mappingExpected (key : String)
  /-- Parts of a unit that the notation can only express for the first unit. -/
  | partsDropped (parts : List String) (unit : String)
  /-- A method of a singleton block whose visibility the notation cannot express. -/
  | visibilityDropped (visibility : Visibility) (method : String)
  /-- A statement of a singleton block that is not a method. -/
  | statementDropped (kind unit : String) (line : Nat)
  deriving DecidableEq, Repr

def Warning.message : Warning → String
  | .superclassOfModule superclass unit =>
    "ignoring superclass " ++ superclass ++ " of module " ++ unit
  | .inheritanceOfModule unit => "inherits_from ignored for module " ++ unit
  | .namesExpected key => "front matter key '" ++ key ++ "' should be a list, got a mapping"
  | .mappingExpected key => "front matter key '" ++ key ++ "' should be a mapping, ignoring it"
  | .partsDropped parts unit =>
    "LPFM front matter describes only the first unit; " ++ ", ".intercalate parts ++ " of " ++
      unit ++ " dropped"
  | .visibilityDropped visibility method =>
    "LPFM has no " ++ visibility.keyword ++ " section inside class << self; " ++ method ++
      " rendered public"
  | .statementDropped kind unit line =>
    "dropping " ++ kind ++ " inside class << self of " ++ unit ++ " at line " ++ toString line

/-- A result or a failure, with the warnings that came before it. -/
structure Outcome (ε : Type) (α : Type) where
  warnings : List Warning
  result : Except ε α

namespace Outcome

def ofExcept (result : Except ε α) : Outcome ε α := ⟨[], result⟩

def warn (warning : Warning) : Outcome ε PUnit := ⟨[warning], .ok ⟨⟩⟩

def fail (error : ε) : Outcome ε α := ⟨[], .error error⟩

/-- Continues with the result; warnings of both parts are kept in order. -/
def andThen (first : Outcome ε α) (next : α → Outcome ε β) : Outcome ε β :=
  match first.result with
  | .ok value => ⟨first.warnings ++ (next value).warnings, (next value).result⟩
  | .error error => ⟨first.warnings, .error error⟩

instance : Monad (Outcome ε) where
  pure value := ⟨[], .ok value⟩
  bind := andThen

/-- The same outcome with its failure described in another way. -/
def mapError (describe : ε → δ) (outcome : Outcome ε α) : Outcome δ α :=
  ⟨outcome.warnings, outcome.result.mapError describe⟩

instance : MonadLift (Except ε) (Outcome ε) where
  monadLift := ofExcept

@[simp] theorem pure_andThen (value : α) (next : α → Outcome ε β) :
    andThen (⟨[], .ok value⟩) next = next value := by
  simp [andThen]

end Outcome

end LiterateRuby
