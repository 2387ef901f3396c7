import LiterateRuby.Constant
import LiterateRuby.DataFormat
import LiterateRuby.Literate.Heading
import LiterateRuby.Warning

/-! # Front matter

A text may start with a block of data between two delimiter lines. The block is a mapping; its
keys are taken as text. Values are read leniently: one name or a list of names, a mapping of
names, a mapping of values. Only a malformed block is a fault of the front matter: whatever else the
decoder raises passes through.
-/

namespace LiterateRuby.Literate

/-- The front matter of a text, the text after it, and whether there is a block at all. -/
structure FrontMatter where
  metadata : Metadata
  body : List Char
  present : Bool

namespace FrontMatter

/-- Why front matter cannot be read. -/
inductive Fault where
  | unclosed
  | undecodable
  | notMapping (typeName : String)
  /-- A key has an integer with too many digits to be written. -/
  | number (fault : Number.TooManyDigits)
  /-- The decoder raised an exception of another class. -/
  | raised (className : String)
  deriving DecidableEq, Repr

/-- What is said before a fault of front matter. -/
def faultMessage (reason : String) : String := "Invalid YAML frontmatter: " ++ reason

/-- The fault in words, where this library words it. -/
def Fault.message? : Fault → Option String
  | .unclosed => some (faultMessage "missing closing '---' line")
  | .notMapping typeName => some (faultMessage ("expected a mapping, got " ++ typeName))
  | .undecodable | .number _ | .raised _ => none

def isDelimiter (line : List Char) : Bool :=
  match Text.after? ['-', '-', '-'] line with
  | some rest => rest.all isGap
  | none => false

def ofDatum : Datum → Except Fault Metadata
  | .null => .ok []
  | .map entries => do
    (Datum.checkWords (entries.map (·.1))).mapError .number
    return Entries.ofPairs (entries.map fun (key, value) => (key.text, value))
  | other => .error (.notMapping other.typeName)

/-- A malformed block is a fault of front matter; any other exception stays what it is. -/
def Fault.ofDecoding : DataFormat.Fault → Fault
  | .malformed => .undecodable
  | .raised className => .raised className

def ofBlock [DataFormat] (block : List Char) : Except Fault Metadata := do
  ofDatum (← (DataFormat.decode block).mapError .ofDecoding)

/-- Splits front matter from a text. -/
def split [DataFormat] (text : List Char) : Except Fault FrontMatter :=
  match Text.lines text with
  | first :: rest =>
    if isDelimiter first then
      match rest.dropWhile (!isDelimiter ·) with
      | [] => .error .unclosed
      | _ :: body => do
        let metadata ← ofBlock (Text.unlines (rest.takeWhile (!isDelimiter ·)))
        return ⟨metadata, Text.unlines body, true⟩
    else .ok ⟨[], text, false⟩
  | [] => .ok ⟨[], text, false⟩

/-- The values whose texts are names, if a value is there: the value itself, the items of a list that
are not null, or the keys of a mapping. -/
def nameData : Option Datum → List Datum
  | none => []
  | some .null => []
  | some (.list items) | some (.tuple items) =>
    items.filter fun item => match item with
      | .null => false
      | _ => true
  | some (.map entries) => entries.map (·.1)
  | some other => [other]

/-- The names that a value gives; a mapping gives its keys with a warning. -/
def namesOf (key : String) (value : Option Datum) : Outcome ε (List String) := do
  match value with
  | some (.map _) => Outcome.warn (.namesExpected key)
  | _ => pure ⟨⟩
  return (nameData value).map Datum.text

/-- The entries of a mapping, if one is there. -/
def entriesIn : Option Datum → List (Datum × Datum)
  | some (.map entries) => entries
  | _ => []

/-- The entries of a mapping, if one is there; any other value is ignored with a warning. -/
def entriesOf (key : String) : Option Datum → Outcome ε (List (Datum × Datum))
  | none => return []
  | some .null => return []
  | some (.map entries) => return entries
  | some _ => do
    Outcome.warn (.mappingExpected key)
    return []

def names (metadata : Metadata) (key : String) : Outcome ε (List String) :=
  namesOf key (metadata.get? key)

def namePairs (metadata : Metadata) (key : String) : Outcome ε (List (String × String)) := do
  let entries ← entriesOf key (metadata.get? key)
  return entries.map fun (name, value) => (name.text, value.text)

def valuePairs (metadata : Metadata) (key : String) : Outcome ε (List (String × Constant)) := do
  let entries ← entriesOf key (metadata.get? key)
  return entries.map fun (name, value) => (name.text, value.toConstant)

/-- The values whose texts are taken from a mapping of names to names. -/
def pairData (entries : List (Datum × Datum)) : List Datum :=
  entries.flatMap fun (name, value) => [name, value]

/-- The values whose texts are taken from a mapping of names to values. -/
def valueData (entries : List (Datum × Datum)) : List Datum :=
  entries.flatMap fun (name, value) => name :: value.worded?.toList

/-- The value under a key of a mapping inside front matter. -/
def nested? (metadata : Metadata) (outer inner : String) : Option Datum :=
  match metadata.get? outer with
  | some (.map entries) =>
    (entries.find? fun entry => entry.1.sameKey (.str inner)).map (·.2)
  | _ => none

end FrontMatter

end LiterateRuby.Literate
