import LiterateRuby.Number.Decimal
import LiterateRuby.Yaml.Scalar

/-! # Tokens of a block of data

Indentation becomes explicit: a block collection starts and ends with tokens of its own. A key
that stands before its colon on one line is recognised only when the colon comes, so the places
where a key may start are remembered and its token is inserted afterwards.
-/

namespace LiterateRuby.Yaml

open DataFormat (Fault)

inductive Token where
  | yamlDirective (major : Nat)
  | tagDirective (handle start : String)
  | otherDirective
  | documentStart
  | documentEnd
  | streamEnd
  | blockSequenceStart
  | blockMappingStart
  | blockEnd
  | flowSequenceStart
  | flowMappingStart
  | flowSequenceEnd
  | flowMappingEnd
  | blockEntry
  | flowEntry
  | key
  | value
  | alias (name : String)
  | anchor (name : String)
  | tag (handle : Option String) (rest : String)
  | scalar (text : String) (plain : Bool)
  deriving DecidableEq, Repr

/-- A place where a key may have started. -/
structure KeyPlace where
  /-- The number of tokens before the key. -/
  tokens : Nat
  /-- Whether something that is not a key could not stand here. -/
  required : Bool
  index : Nat
  line : Nat
  column : Nat

/-- What is known after some of the text was read. -/
structure Scanner where
  cursor : Cursor
  tokens : List Token := []
  flowLevel : Nat := 0
  /-- The column of the innermost block collection, or -1 outside all. -/
  indent : Int := -1
  /-- The columns of the collections around it, innermost first. -/
  outerIndents : List Int := []
  /-- Whether a key may start at the position. -/
  keyAllowed : Bool := true
  /-- The place of a possible key for each level of flow collections. -/
  keyPlaces : List (Nat × KeyPlace) := []

namespace Scanner

def emit (scanner : Scanner) (token : Token) : Scanner :=
  { scanner with tokens := scanner.tokens ++ [token] }

/-- Inserts tokens before the token with a number. -/
def insert (scanner : Scanner) (position : Nat) (new : List Token) : Scanner :=
  { scanner with tokens := scanner.tokens.take position ++ new ++ scanner.tokens.drop position }

def skip (scanner : Scanner) (count : Nat) : Scanner :=
  { scanner with cursor := scanner.cursor.skip count }

/-- Closes the block collections to the right of a column. -/
def closeBlocks (column : Int) : Nat → Scanner → Scanner
  | 0, scanner => scanner
  | fuel + 1, scanner =>
    if scanner.flowLevel = 0 && column < scanner.indent then
      let indent := scanner.outerIndents.headD (-1)
      closeBlocks column fuel
        ({ scanner with indent, outerIndents := scanner.outerIndents.drop 1 }.emit .blockEnd)
    else scanner

/-- Closes the block collections to the right of a column. -/
def unwind (scanner : Scanner) (column : Int) : Scanner :=
  closeBlocks column (scanner.outerIndents.length + 1) scanner

/-- Opens a block collection at a column unless one is open there. -/
def openBlock (scanner : Scanner) (column : Nat) : Scanner × Bool :=
  if scanner.indent < column then
    ({ scanner with indent := column, outerIndents := scanner.indent :: scanner.outerIndents }, true)
  else (scanner, false)

/-- Forgets the possible key of the current level. -/
def dropKey (scanner : Scanner) : Except Fault Scanner :=
  match scanner.keyPlaces.lookup scanner.flowLevel with
  | none => .ok scanner
  | some place =>
    if place.required then .error .malformed
    else
      .ok { scanner with keyPlaces := scanner.keyPlaces.filter (·.1 != scanner.flowLevel) }

/-- Forgets the possible keys that are on another line or too far back. -/
def dropStaleKeys (scanner : Scanner) : Except Fault Scanner :=
  let isStale (place : KeyPlace) : Bool :=
    place.line != scanner.cursor.line || place.index + 1024 < scanner.cursor.index
  if scanner.keyPlaces.any fun (_, place) => isStale place && place.required then
    .error .malformed
  else .ok { scanner with keyPlaces := scanner.keyPlaces.filter fun (_, place) => !isStale place }

def saveKey (scanner : Scanner) : Except Fault Scanner :=
  if scanner.keyAllowed then do
    let scanner ← scanner.dropKey
    let cursor := scanner.cursor
    let required := scanner.flowLevel = 0 && scanner.indent = cursor.column
    let place : KeyPlace :=
      ⟨scanner.tokens.length, required, cursor.index, cursor.line, cursor.column⟩
    return { scanner with keyPlaces := (scanner.flowLevel, place) :: scanner.keyPlaces }
  else .ok scanner

def skipBlanks : Nat → Scanner → Scanner
  | 0, scanner => scanner
  | fuel + 1, scanner =>
    let cursor := scanner.cursor.skipWhile (· == ' ')
    let cursor := if cursor.peek == '#' then cursor.skipWhile (!isEnd ·) else cursor
    if isBreak cursor.peek then
      let keyAllowed := scanner.flowLevel = 0 || scanner.keyAllowed
      skipBlanks fuel { scanner with cursor := cursor.lineBreak.2, keyAllowed }
    else { scanner with cursor }

/-- The name of an anchor or an alias after its sign. -/
def anchorName (cursor : Cursor) : Except Fault (String × Cursor) :=
  let name := cursor.span isNameChar
  let cursor := cursor.skip name.length
  let isStop := isBlankOrEnd cursor.peek ||
    ['?', ':', ',', ']', '\x7d', '%', '@', Char.ofNat 0x60].contains cursor.peek
  if name.isEmpty || !isStop then .error .malformed else .ok (String.ofList name, cursor)

/-- A tag handle: one sign, or a name between two signs. -/
def tagHandle (cursor : Cursor) : Except Fault (String × Cursor) :=
  if cursor.peek != '!' then .error .malformed
  else if cursor.peek 1 == ' ' then .ok ("!", cursor.next)
  else
    let name := cursor.next.span isNameChar
    let afterName := cursor.skip (name.length + 1)
    if afterName.peek == '!' then .ok (String.ofList ('!' :: name ++ ['!']), afterName.next)
    else .error .malformed

/-- Whether a character may stand in the rest of a tag. -/
def isTagChar (c : Char) : Bool :=
  c.isAlphanum || "-;/?:@&=+$,_.!~*'()[]".toList.contains c

def tagBytes : Nat → Cursor → Except Fault (List UInt8 × Cursor)
  | 0, _ => .error .malformed
  | fuel + 1, cursor =>
    if cursor.peek == '%' then
      let digits := cursor.next.rest.take 2
      if digits.length = 2 && digits.all Scalar.isHex then do
        let (more, rest) ← tagBytes fuel (cursor.skip 3)
        return ((Scalar.hexValue digits).toUInt8 :: more, rest)
      else .error .malformed
    else .ok ([], cursor)

/-- The characters of the rest of a tag, with its percent escapes decoded. -/
def tagText : Nat → Cursor → Except Fault (List Char × Cursor)
  | 0, _ => .error .malformed
  | fuel + 1, cursor =>
    if isTagChar cursor.peek then
      let text := cursor.span isTagChar
      do
        let (more, rest) ← tagText fuel (cursor.skip text.length)
        return (text ++ more, rest)
    else if cursor.peek == '%' then do
      let (bytes, rest) ← tagBytes (cursor.rest.length + 1) cursor
      match Text.Utf8.decode bytes with
      | .ok text => do
        let (more, rest) ← tagText fuel rest
        return (text.toList ++ more, rest)
      | .error _ => .error .malformed
    else .ok ([], cursor)

/-- The rest of a tag, which is not empty. -/
def tagRest (cursor : Cursor) : Except Fault (String × Cursor) := do
  let (text, cursor) ← tagText (cursor.rest.length + 1) cursor
  if text.isEmpty then throw .malformed else return (String.ofList text, cursor)

def tagToken (cursor : Cursor) : Except Fault (Token × Cursor) := do
  let (token, cursor) ←
    if cursor.peek 1 == '<' then do
      let (rest, cursor) ← tagRest (cursor.skip 2)
      if cursor.peek == '>' then pure (Token.tag none rest, cursor.next) else throw .malformed
    else if isBlankOrEnd (cursor.peek 1) then pure (Token.tag none "!", cursor.next)
    else do
      let word := cursor.next.span (!isSpaceOrEnd ·)
      let (handle, cursor) ← if word.contains '!' then tagHandle cursor else pure ("!", cursor.next)
      let (rest, cursor) ← tagRest cursor
      pure (Token.tag (some handle) rest, cursor)
  if isSpaceOrEnd cursor.peek then return (token, cursor) else throw .malformed

def directiveNumber (cursor : Cursor) : Except Fault (Nat × Cursor) :=
  let digits := cursor.span Char.isDigit
  if digits.isEmpty then .error .malformed
  else if Number.maxIntDigits < digits.length then .error valueError
  else .ok (Text.digitsValue digits, cursor.skip digits.length)

/-- The directive at the position, up to the end of its line. -/
def directive (cursor : Cursor) : Except Fault (Token × Cursor) := do
  let name := cursor.next.span isNameChar
  let cursor := cursor.skip (name.length + 1)
  if name.isEmpty || !isSpaceOrEnd cursor.peek then throw .malformed
  let (token, cursor) ←
    match String.ofList name with
    | "YAML" => do
      let (major, cursor) ← directiveNumber (cursor.skipWhile (· == ' '))
      if cursor.peek != '.' then throw .malformed
      let (_, cursor) ← directiveNumber cursor.next
      if !isSpaceOrEnd cursor.peek then throw .malformed
      pure (Token.yamlDirective major, cursor)
    | "TAG" => do
      let (handle, cursor) ← tagHandle (cursor.skipWhile (· == ' '))
      if cursor.peek != ' ' then throw .malformed
      let (start, cursor) ← tagRest (cursor.skipWhile (· == ' '))
      if !isSpaceOrEnd cursor.peek then throw .malformed
      pure (Token.tagDirective handle start, cursor)
    | _ => pure (Token.otherDirective, cursor.skipWhile (!isEnd ·))
  let cursor ← Scalar.ignoredLine cursor
  return (token, cursor)

/-- Ends all blocks before a token that belongs to the whole stream. -/
def endBlocks (scanner : Scanner) : Except Fault Scanner := do
  let scanner ← (scanner.unwind (-1)).dropKey
  return { scanner with keyAllowed := false }

/-- A token at which a key may start, read by the given reader. -/
def contentToken (scanner : Scanner) (read : Cursor → Except Fault (Token × Cursor)) :
    Except Fault Scanner := do
  let scanner ← scanner.saveKey
  let (token, cursor) ← read scanner.cursor
  return { scanner with cursor, keyAllowed := false }.emit token

def openFlow (scanner : Scanner) (token : Token) : Except Fault Scanner := do
  let scanner ← scanner.saveKey
  let inner := { scanner with flowLevel := scanner.flowLevel + 1, keyAllowed := true }
  return (inner.skip 1).emit token

def closeFlow (scanner : Scanner) (token : Token) : Except Fault Scanner := do
  let scanner ← scanner.dropKey
  let outer := { scanner with flowLevel := scanner.flowLevel - 1, keyAllowed := false }
  return (outer.skip 1).emit token

/-- Opens a block collection for a token that starts an entry of one. -/
def entryBlock (scanner : Scanner) (start : Token) : Except Fault Scanner :=
  if scanner.flowLevel ≠ 0 then .ok scanner
  else if !scanner.keyAllowed then .error .malformed
  else
    let (scanner, opened) := scanner.openBlock scanner.cursor.column
    .ok (if opened then scanner.emit start else scanner)

def blockEntry (scanner : Scanner) : Except Fault Scanner := do
  let scanner ← scanner.entryBlock .blockSequenceStart
  let scanner ← { scanner with keyAllowed := true }.dropKey
  return (scanner.skip 1).emit .blockEntry

/-- The sign of a key that is not recognised by its colon. -/
def complexKey (scanner : Scanner) : Except Fault Scanner := do
  let scanner ← scanner.entryBlock .blockMappingStart
  let scanner ← { scanner with keyAllowed := scanner.flowLevel = 0 }.dropKey
  return (scanner.skip 1).emit .key

/-- The sign of a value; a possible key before it becomes a key. -/
def valueSign (scanner : Scanner) : Except Fault Scanner :=
  match scanner.keyPlaces.lookup scanner.flowLevel with
  | some place =>
    let keyPlaces := scanner.keyPlaces.filter (·.1 != scanner.flowLevel)
    let scanner := { scanner with keyPlaces, keyAllowed := false }
    let scanner :=
      if scanner.flowLevel = 0 then
        let (scanner, opened) := scanner.openBlock place.column
        scanner.insert place.tokens (if opened then [.blockMappingStart, .key] else [.key])
      else scanner.insert place.tokens [.key]
    .ok ((scanner.skip 1).emit .value)
  | none => do
    let scanner ← scanner.entryBlock .blockMappingStart
    let scanner ← { scanner with keyAllowed := scanner.flowLevel = 0 }.dropKey
    return (scanner.skip 1).emit .value

/-- A literal or folded block. -/
def blockScalar (scanner : Scanner) : Except Fault Scanner := do
  let scanner ← { scanner with keyAllowed := true }.dropKey
  let (text, cursor) ← Scalar.block scanner.indent scanner.cursor
  return { scanner with cursor }.emit (.scalar (String.ofList text) false)

def plainScalar (scanner : Scanner) : Except Fault Scanner := do
  let scanner ← scanner.saveKey
  let plain := Scalar.plain (scanner.flowLevel != 0) (scanner.indent + 1) scanner.cursor
  return { scanner with cursor := plain.cursor, keyAllowed := plain.endsLine }.emit
    (.scalar (String.ofList plain.text) true)

/-- The characters that start no plain scalar, or only before a character that is not blank. -/
def indicators : List Char :=
  ['-', '?', ':', ',', '[', ']', '\x7b', '\x7d', '#', '&', '*', '!', '|', '>', '\'', '"', '%', '@',
    Char.ofNat 0x60]

def startsPlain (scanner : Scanner) : Bool :=
  let c := scanner.cursor.peek
  (!isBlankOrEnd c && !indicators.contains c) ||
    (!isBlankOrEnd (scanner.cursor.peek 1) &&
      (c == '-' || (scanner.flowLevel = 0 && (c == '?' || c == ':'))))

/-- Reads one token after blanks were skipped. -/
def readToken (scanner : Scanner) : Except Fault Scanner :=
  let cursor := scanner.cursor
  let c := cursor.peek
  let inFlow := scanner.flowLevel != 0
  let beforeBlank := isBlankOrEnd (cursor.peek 1)
  if cursor.column = 0 && c == '%' then do
    let scanner ← scanner.endBlocks
    let (token, cursor) ← directive scanner.cursor
    return { scanner with cursor }.emit token
  else if cursor.column = 0 && cursor.atMarker then do
    let scanner ← scanner.endBlocks
    return (scanner.skip 3).emit (if c == '-' then .documentStart else .documentEnd)
  else if c == '[' then scanner.openFlow .flowSequenceStart
  else if c == '\x7b' then scanner.openFlow .flowMappingStart
  else if c == ']' then scanner.closeFlow .flowSequenceEnd
  else if c == '\x7d' then scanner.closeFlow .flowMappingEnd
  else if c == ',' then do
    let scanner ← { scanner with keyAllowed := true }.dropKey
    return (scanner.skip 1).emit .flowEntry
  else if c == '-' && beforeBlank then scanner.blockEntry
  else if c == '?' && (inFlow || beforeBlank) then scanner.complexKey
  else if c == ':' && (inFlow || beforeBlank) then scanner.valueSign
  else if c == '*' then
    scanner.contentToken fun cursor => do
      let (name, cursor) ← anchorName cursor.next
      return (.alias name, cursor)
  else if c == '&' then
    scanner.contentToken fun cursor => do
      let (name, cursor) ← anchorName cursor.next
      return (.anchor name, cursor)
  else if c == '!' then scanner.contentToken tagToken
  else if (c == '|' || c == '>') && !inFlow then scanner.blockScalar
  else if c == '\'' || c == '"' then
    scanner.contentToken fun cursor => do
      let (text, cursor) ← Scalar.quoted cursor
      return (.scalar (String.ofList text) false, cursor)
  else if scanner.startsPlain then scanner.plainScalar
  else .error .malformed

def readAll : Nat → Scanner → Except Fault (List Token)
  | 0, _ => .error .malformed
  | fuel + 1, scanner => do
    let scanner ← (skipBlanks (scanner.cursor.rest.length + 1) scanner).dropStaleKeys
    let scanner := scanner.unwind scanner.cursor.column
    if scanner.cursor.rest.isEmpty then do
      let scanner ← scanner.endBlocks
      return (scanner.emit .streamEnd).tokens
    else do
      let scanner ← scanner.readToken
      readAll fuel scanner

end Scanner

/-- Whether a block may hold a character. -/
def isAllowed (c : Char) : Bool :=
  let code := c.toNat
  code == 9 || code == 10 || code == 13 || (0x20 ≤ code && code ≤ 0x7E) || code == 0x85 ||
    (0xA0 ≤ code && code ≤ 0xD7FF) || (0xE000 ≤ code && code ≤ 0xFFFD) || 0x10000 ≤ code

/-- The tokens of a block. A mark of byte order at its start is skipped. -/
def tokens (text : List Char) : Except Fault (List Token) :=
  if text.all isAllowed then
    let cursor : Cursor := { rest := text }
    let cursor := if cursor.peek.toNat == 0xFEFF then cursor.next else cursor
    Scanner.readAll (text.length + 2) { cursor }
  else .error .malformed

end LiterateRuby.Yaml
