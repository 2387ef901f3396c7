import LiterateRuby.Datum
import LiterateRuby.Text.Case
import LiterateRuby.Yaml.Node

/-! # Data of a node tree

A node is decoded by its tag. A mapping first takes the entries of the mappings that its merge
keys name, then its own; a later entry replaces the value of an earlier one with the same key.
Keys must be scalars. Collections are filled level by level, so of several faults the one least deep shows.
-/

namespace LiterateRuby.Yaml

open DataFormat (Fault)

namespace Decode

/-- The value of decimal digits, of which there may not be too many. -/
def decimal (text : List Char) : Except Fault Int :=
  let digits := Text.trim text
  if Number.maxIntDigits < digits.length then .error valueError
  else
    match Number.intOfText? digits with
    | some value => .ok value
    | none => .error valueError

/-- The digits after the sign of their base, if they have it. -/
def afterBase (letter : Char) : List Char → List Char
  | '0' :: c :: rest => if c.toLower = letter then rest else '0' :: c :: rest
  | digits => digits

/-- The value of digits in a base that is a power of two and has a letter as its sign. -/
def baseValue (base : Nat) (letter : Char) (text : List Char) : Except Fault Int :=
  let digits := afterBase letter (Text.trim text)
  let isOf (c : Char) : Bool := Scalar.isHex c && Scalar.hexValue [c] < base
  if digits.isEmpty || !digits.all isOf then .error valueError
  else .ok (digits.foldl (fun value c => value * base + Scalar.hexValue [c]) 0 : Nat)

/-- The value of base-sixty groups, most significant first. -/
def sexagesimal (groups : List Int) : Int := groups.foldl (fun value group => value * 60 + group) 0

/-- The sign of a number and the rest of its text. -/
def signed (text : List Char) : Bool × List Char := (text.head? == some '-', Tag.afterSign text)

def int (text : String) : Except Fault Int := do
  let (negative, digits) := signed (text.toList.filter (· != '_'))
  let magnitude ← match digits with
    | ['0'] => pure 0
    | '0' :: 'b' :: rest => baseValue 2 'b' rest
    | '0' :: 'x' :: rest => baseValue 16 'x' rest
    | '0' :: rest => baseValue 8 'o' ('0' :: rest)
    | [] => throw (.raised "IndexError")
    | digits =>
      if digits.contains ':' then
        sexagesimal <$> (Text.splitOn ':' digits).mapM decimal
      else decimal digits
  return if negative then -magnitude else magnitude

/-- The value of base-sixty groups of floating-point numbers, added from the least significant
one. A power of sixty may be beyond the range of all numbers. -/
def sexagesimalFloat (groups : List Number.Binary64) : Except Fault Number.Binary64 :=
  let step := fun (state : Number.Binary64 × Int) (group : Number.Binary64) =>
    match Number.Binary64.ofInt state.2 with
    | .infinite _ => .error overflowError
    | weight => .ok (state.1.add (group.mul weight), state.2 * 60)
  (·.1) <$> groups.reverse.foldlM step (.zero false, 1)

def float (text : String) : Except Fault Number.Binary64 := do
  let all := (text.toList.filter (· != '_')).map Char.toLower
  if all.isEmpty then throw (.raised "IndexError")
  let (negative, digits) := signed all
  let read (cs : List Char) : Except Fault Number.Binary64 :=
    match Number.Binary64.ofText? (Text.trim cs) with
    | some value => .ok value
    | none => .error valueError
  let magnitude ←
    if digits = ".inf".toList then pure (.infinite false)
    else if digits = ".nan".toList then pure .nan
    else if digits.contains ':' then
      (Text.splitOn ':' digits).mapM read >>= sexagesimalFloat
    else read digits
  return if negative then magnitude.neg else magnitude

def bool (text : String) : Except Fault Bool :=
  match Text.lowered text with
  | "yes" | "true" | "on" => .ok true
  | "no" | "false" | "off" => .ok false
  | _ => .error (.raised "KeyError")

/-- The parts of a date whose month and day may have one digit. -/
def looseDate? (cs : List Char) : Option Tag.TimeParts := do
  let (year, cs) ← Tag.fixedDigits? 4 cs
  let cs ← Tag.skip? '-' cs
  let (month, cs) ← Tag.oneOrTwoDigits? cs
  let cs ← Tag.skip? '-' cs
  let (day, cs) ← Tag.oneOrTwoDigits? cs
  if cs.isEmpty then some ⟨year, month, day, none, none⟩ else none

def offset (zone : Option Char × List Char × List Char) : Int :=
  let seconds : Int := 3600 * Text.digitsValue zone.2.1 + 60 * Text.digitsValue zone.2.2
  if zone.1 = some '-' then -seconds else seconds

/-- The microseconds of the digits after the point of a second. -/
def microseconds (digits : List Char) : Nat :=
  Text.digitsValue ((digits ++ List.replicate 6 '0').take 6)

def time (text : String) : Except Fault Datum := do
  let cs := (Tag.spelling text).toList
  let some parts := (Tag.timeParts? cs).orElse fun _ => looseDate? cs
    | throw (.raised "AttributeError")
  let value := Text.digitsValue
  let some date := Date.ofParts? (value parts.year) (value parts.month) (value parts.day)
    | throw valueError
  match parts.clock with
  | none => return .date date
  | some (hour, minute, second, fraction) =>
    match Timestamp.ofParts? date (value hour) (value minute) (value second) (microseconds fraction)
        (parts.zone.map offset) with
    | some time => return .time time
    | none => throw valueError

/-- The six bits of a character of base sixty-four. -/
def sixBits? (c : Char) : Option Nat :=
  if 'A' ≤ c && c ≤ 'Z' then some (c.toNat - 65)
  else if 'a' ≤ c && c ≤ 'z' then some (c.toNat - 71)
  else if c.isDigit then some (c.toNat + 4)
  else if c = '+' then some 62
  else if c = '/' then some 63
  else none

/-- The bytes of a base-sixty-four text. `bits` are the bits that no byte was made of yet, `place`
their position in a group of four characters; other characters are skipped. -/
def base64 (place bits pads : Nat) : List Char → Except Fault (List UInt8)
  | [] => if place = 0 then .ok [] else .error .malformed
  | c :: rest =>
    if c = '=' then
      if 2 ≤ place && 4 ≤ place + pads + 1 then .ok []
      else base64 place bits (if 2 ≤ place then pads + 1 else pads) rest
    else
      match sixBits? c with
      | none => base64 place bits pads rest
      | some six =>
        if place = 0 then base64 1 six 0 rest
        else do
          let joined := bits * 64 + six
          let spare := if place = 1 then 16 else if place = 2 then 4 else 1
          let more ← base64 ((place + 1) % 4) (joined % spare) 0 rest
          return (joined / spare).toUInt8 :: more

def scalar (tag : Tag) (text : String) : Except Fault Datum :=
  match tag with
  | .null => .ok .null
  | .bool => Datum.bool <$> bool text
  | .int => Datum.int <$> int text
  | .float => Datum.float <$> float text
  | .str => .ok (.str text)
  | .timestamp => time text
  | .binary =>
    if text.toList.all fun c => c.toNat < 128 then Datum.bytes <$> base64 0 0 0 text.toList
    else .error .malformed
  | _ => .error .malformed

/-- Whether a value may be a key. -/
def isKey : Datum → Bool
  | .list _ | .map _ | .set _ => false
  | _ => true

/-- A value that is made in rounds, with the first fault of each round. A collection is made empty and filled in
the next round; what it holds is made then, so a fault further in shows later. -/
structure Made where
  value : Datum
  faults : List (Option Fault)

namespace Made

def ofResult : Except Fault Datum → Made
  | .ok value => ⟨value, []⟩
  | .error fault => ⟨.null, [some fault]⟩

/-- The first faults of two values, one made right after the other. -/
def firstFaults : List (Option Fault) → List (Option Fault) → List (Option Fault)
  | first :: more, second :: rest => first.or second :: firstFaults more rest
  | [], faults => faults
  | faults, [] => faults

/-- A collection whose parts are made, from left to right, when it is filled. -/
def filled (value : Datum) (parts : List (List (Option Fault))) : Made :=
  ⟨value, none :: parts.foldr firstFaults []⟩

/-- A node that its tag does not fit. Where the tag is that of a collection, filling the collection fails. -/
def misfit : Tag → Made
  | .seq | .omap | .pairs => filled (.list []) [[some .malformed]]
  | .map => filled (.map []) [[some .malformed]]
  | .set => filled (.set []) [[some .malformed]]
  | _ => ofResult (.error .malformed)

def result (made : Made) : Except Fault Datum :=
  match made.faults.findSome? id with
  | some fault => .error fault
  | none => .ok made.value

end Made

/-- What a node gives to what contains it. -/
structure Built where
  tag : Tag
  made : Made
  /-- The text of a scalar, or of the scalar under the default key of a mapping. -/
  text : Option String
  /-- The entries of a mapping with those it merges; `none` for other nodes. -/
  entries : Option (Except Fault (List (Made × Made)))
  /-- The entry that a mapping has itself, if it has one and no more. -/
  only? : Option (Made × Made)
  /-- The nodes in a sequence; `none` for other nodes. -/
  items : Option (List Built)

/-- The entries that a merge key brings in. -/
def mergedEntries (value : Built) : Except Fault (List (Made × Made)) :=
  match value.entries, value.items with
  | some entries, _ => entries
  | none, some items => do
    let parts ← items.mapM fun item => match item.entries with
      | some entries => entries
      | none => .error .malformed
    return parts.reverse.flatten
  | none, none => .error .malformed

/-- The entries of a mapping: those of its merge keys, then its own. -/
def allEntries (entries : List (Built × Built)) : Except Fault (List (Made × Made)) := do
  let merged ← (entries.filter (·.1.tag == .merge)).mapM fun entry => mergedEntries entry.2
  let own := (entries.filter (·.1.tag != .merge)).map fun (key, value) =>
    match key.tag, key.text with
    | .value, some text => (⟨.str text, []⟩, value.made)
    | _, _ => (key.made, value.made)
  return merged.flatten ++ own

/-- A mapping or set with its entries; each key must be one as soon as it is made. -/
def mapping (wrap : Entries Datum Datum → Datum) : Except Fault (List (Made × Made)) → Made
  | .error fault => .filled (wrap []) [[some fault]]
  | .ok entries =>
    let built := entries.foldl (fun built (key, value) => Entries.putBy Datum.sameKey built key.value value.value) []
    .filled (wrap built) (entries.flatMap fun (key, value) =>
      [key.faults, [if isKey key.value then none else some .malformed], value.faults])

/-- The pairs of a sequence of mappings with one entry each. -/
def pairs (items : List Built) : Made :=
  .filled (.list ((items.filterMap (·.only?)).map fun (key, value) => .tuple [key.value, value.value]))
    (items.flatMap fun item => match item.only? with
      | some (key, value) => [key.faults, value.faults]
      | none => [[some .malformed]])

mutual

def build : Node → Built
  | .scalar tag text =>
    let made := match tag with
      | .seq | .omap | .pairs | .map | .set => .misfit tag
      | _ => .ofResult (scalar tag text)
    ⟨tag, made, some text, none, none, none⟩
  | .seq tag nodes =>
    let items := buildAll nodes
    let made := match tag with
      | .seq => .filled (.list (items.map (·.made.value))) (items.map (·.made.faults))
      | .omap | .pairs => pairs items
      | _ => .misfit tag
    ⟨tag, made, none, none, none, some items⟩
  | .map tag nodes =>
    let parts := buildEntries nodes
    let entries := allEntries parts
    let text := (parts.find? (·.1.tag == .value)).bind (·.2.text)
    let made := match tag, text with
      | .map, _ => mapping .map entries
      | .set, _ => mapping (fun built => .set (built.map (·.1))) entries
      | .seq, _ | .omap, _ | .pairs, _ | _, none => .misfit tag
      | _, some text => .ofResult (scalar tag text)
    let only? := match parts with
      | [(key, value)] => some (key.made, value.made)
      | _ => none
    ⟨tag, made, text, some entries, only?, none⟩

def buildAll : List Node → List Built
  | [] => []
  | item :: rest => build item :: buildAll rest

def buildEntries : List (Node × Node) → List (Built × Built)
  | [] => []
  | (key, value) :: rest => (build key, build value) :: buildEntries rest

end

end Decode

/-- The data of a block; an empty block is null. -/
def decode (text : List Char) : Except Fault Datum := do
  match ← Node.ofText? text with
  | some node => (Decode.build node).made.result
  | none => return .null

end LiterateRuby.Yaml
