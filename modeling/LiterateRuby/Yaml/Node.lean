import LiterateRuby.Yaml.Tag
import LiterateRuby.Yaml.Token

/-! # The node tree of a block of data

Tokens are read into one tree of scalars, sequences and mappings, each with its tag. An alias
stands for the node that its anchor was given to; an anchor is given once.
-/

namespace LiterateRuby.Yaml

open DataFormat (Fault)

/-- A node of a block of data. -/
inductive Node where
  | scalar (tag : Tag) (text : String)
  | seq (tag : Tag) (items : List Node)
  | map (tag : Tag) (entries : List (Node × Node))

namespace Node

def empty : Node := .scalar .null ""

/-- Tokens that are left, anchors that were given and handles that stand for the starts of tags. -/
structure Source where
  tokens : List Token
  anchors : List (String × Node) := []
  handles : List (String × String) := [("!", "!"), ("!!", Tag.standardStart)]

abbrev Reader := StateT Source (Except Fault)

def peek : Reader Token := return (← get).tokens.headD .streamEnd

def drop : Reader PUnit := modify fun source => { source with tokens := source.tokens.drop 1 }

/-- Moves past the token at the front if it is the given one, and says whether it was. -/
def accept (token : Token) : Reader Bool := do
  if (← peek) = token then
    drop
    return true
  else return false

/-- Moves past a token that must be at the front. -/
def expect (token : Token) : Reader PUnit := do
  if !(← accept token) then throw .malformed

def tagName (handle : Option String) (rest : String) : Reader String := do
  match handle with
  | none => return rest
  | some handle =>
    match (← get).handles.lookup handle with
    | some start => return start ++ rest
    | none => throw .malformed

/-- The anchor and the tag at the front, in either order. -/
def properties : Reader (Option String × Option String) := do
  let anchor? : Reader (Option String) := do
    match ← peek with
    | .anchor name =>
      drop
      return some name
    | _ => return none
  let tag? : Reader (Option (Option String × String)) := do
    match ← peek with
    | .tag handle rest =>
      drop
      return some (handle, rest)
    | _ => return none
  let first ← anchor?
  let tag ← tag?
  let anchor ← match first, tag with
    | none, some _ => anchor?
    | first, _ => pure first
  match tag with
  | none => return (anchor, none)
  | some (handle, rest) => return (anchor, some (← tagName handle rest))

/-- The tag of a scalar: its own, or the one that its spelling gives a plain scalar. -/
def scalarTag (name : Option String) (plain : Bool) (text : String) : Tag :=
  match name with
  | none => if plain then Tag.ofPlain text else .str
  | some name => if name = "!" then Tag.ofPlain text else Tag.ofName name

/-- The tag of a collection: its own or the common one. -/
def collectionTag (name : Option String) (common : Tag) : Tag :=
  match name with
  | none => common
  | some name => if name = "!" then common else Tag.ofName name

mutual

/-- A node. In a mapping's value a sequence may start without indentation. -/
def node : Nat → (block unindented : Bool) → Reader Node
  | 0, _, _ => throw .malformed
  | fuel + 1, block, unindented => do
    match ← peek with
    | .alias name => do
      drop
      match (← get).anchors.lookup name with
      | some found => return found
      | none => throw .malformed
    | _ => do
      let (anchor, tag) ← properties
      let given := (← get).anchors
      if (anchor.bind fun name => given.lookup name).isSome then throw .malformed
      let content : Node ← match ← peek with
        | .scalar text plain => do
          drop
          pure (.scalar (scalarTag tag plain text) text)
        | .flowSequenceStart => do
          drop
          pure (.seq (collectionTag tag .seq) (← flowItems fuel true))
        | .flowMappingStart => do
          drop
          pure (.map (collectionTag tag .map) (← flowEntries fuel true))
        | token => do
          if token = .blockEntry && unindented then
            pure (.seq (collectionTag tag .seq) (← unindentedItems fuel))
          else if token = .blockSequenceStart && block then do
            drop
            pure (.seq (collectionTag tag .seq) (← blockItems fuel))
          else if token = .blockMappingStart && block then do
            drop
            pure (.map (collectionTag tag .map) (← blockEntries fuel))
          else if anchor.isSome || tag.isSome then pure (.scalar (scalarTag tag true "") "")
          else throw .malformed
      match anchor with
      | some name =>
        modify fun source => { source with anchors := (name, content) :: source.anchors }
      | none => pure ⟨⟩
      return content

def blockItems : Nat → Reader (List Node)
  | 0 => throw .malformed
  | fuel + 1 => do
    if ← accept .blockEntry then
      let item ← nodeUnless fuel [.blockEntry, .blockEnd] true false
      return item :: (← blockItems fuel)
    else
      expect .blockEnd
      return []

/-- The items of a sequence at the indentation of the mapping around it. -/
def unindentedItems : Nat → Reader (List Node)
  | 0 => throw .malformed
  | fuel + 1 => do
    if ← accept .blockEntry then
      let item ← nodeUnless fuel [.blockEntry, .key, .value, .blockEnd] true false
      return item :: (← unindentedItems fuel)
    else return []

def blockEntries : Nat → Reader (List (Node × Node))
  | 0 => throw .malformed
  | fuel + 1 => do
    if ← accept .key then
      let key ← nodeUnless fuel [.key, .value, .blockEnd] true true
      let value ←
        if ← accept .value then nodeUnless fuel [.key, .value, .blockEnd] true true
        else pure empty
      return (key, value) :: (← blockEntries fuel)
    else
      expect .blockEnd
      return []

/-- The items of a flow sequence up to its end; an item may be a single entry of a mapping. -/
def flowItems : Nat → (first : Bool) → Reader (List Node)
  | 0, _ => throw .malformed
  | fuel + 1, first => do
    if ← accept .flowSequenceEnd then return []
    if !first then expect .flowEntry
    if ← accept .key then
      let key ← nodeUnless fuel [.value, .flowEntry, .flowSequenceEnd] false false
      let value ←
        if ← accept .value then nodeUnless fuel [.flowEntry, .flowSequenceEnd] false false
        else pure empty
      return .map .map [(key, value)] :: (← flowItems fuel false)
    else if ← accept .flowSequenceEnd then return []
    else
      let item ← node fuel false false
      return item :: (← flowItems fuel false)

def flowEntries : Nat → (first : Bool) → Reader (List (Node × Node))
  | 0, _ => throw .malformed
  | fuel + 1, first => do
    if ← accept .flowMappingEnd then return []
    if !first then expect .flowEntry
    if ← accept .key then
      let key ← nodeUnless fuel [.value, .flowEntry, .flowMappingEnd] false false
      let value ←
        if ← accept .value then nodeUnless fuel [.flowEntry, .flowMappingEnd] false false
        else pure empty
      return (key, value) :: (← flowEntries fuel false)
    else if ← accept .flowMappingEnd then return []
    else
      let key ← node fuel false false
      return (key, empty) :: (← flowEntries fuel false)

/-- A node, or an empty scalar before one of the given tokens. -/
def nodeUnless : Nat → List Token → (block unindented : Bool) → Reader Node
  | 0, _, _, _ => throw .malformed
  | fuel + 1, stops, block, unindented => do
    if stops.contains (← peek) then return empty else node fuel block unindented

end

/-- Moves past all tokens at the front that are the given one. -/
def skipAll (token : Token) : Reader PUnit :=
  modify fun source => { source with tokens := source.tokens.dropWhile (· == token) }

def directives : Nat → Bool → List String → Reader PUnit
  | 0, _, _ => throw .malformed
  | fuel + 1, versioned, named => do
    match ← peek with
    | .yamlDirective major => do
      if versioned || major ≠ 1 then throw .malformed
      drop
      directives fuel true named
    | .tagDirective handle start => do
      if named.contains handle then throw .malformed
      drop
      modify fun source => { source with handles := (handle, start) :: source.handles }
      directives fuel versioned (handle :: named)
    | .otherDirective => do
      drop
      directives fuel versioned named
    | _ => return ⟨⟩

/-- Whether a token starts a marked document or ends the stream. -/
def opensDocument : Token → Bool
  | .yamlDirective _ | .tagDirective _ _ | .otherDirective | .documentStart | .streamEnd => true
  | _ => false

/-- The only document of a stream, if there is one. -/
def document : Reader (Option Node) := do
  let fuel := 4 * (← get).tokens.length + 8
  let content ←
    if opensDocument (← peek) then do
      if (← peek) = .streamEnd then pure none
      else do
        directives fuel false []
        expect .documentStart
        let token ← peek
        if opensDocument token || token = .documentEnd then pure (some empty)
        else some <$> node fuel true false
    else some <$> node fuel true false
  skipAll .documentEnd
  expect .streamEnd
  return content

def ofText? (text : List Char) : Except Fault (Option Node) := do
  let tokens ← tokens text
  let (content, _) ← document.run { tokens }
  return content

end Node

end LiterateRuby.Yaml
