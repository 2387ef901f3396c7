import LiterateRuby.Text.Printable

/-! # Quoted display of text

Messages and the text of nested data show a string between quotes: single quotes, or double quotes
when the string holds a single quote and no double quote. The quote in use and the backslash are
escaped, line breaks and tabs by letter, all that is not printable by code.
-/

namespace LiterateRuby.Text

/-- A hexadecimal number of a least width, in small letters. -/
def hex (width n : Nat) : List Char :=
  let digits := Nat.toDigits 16 n
  List.replicate (width - digits.length) '0' ++ digits

def quoteFor (cs : List Char) : Char := if cs.contains '\'' && !cs.contains '"' then '"' else '\''

/-- The escape by code of a character that is not printable. -/
def codeEscape (c : Char) : List Char :=
  if c.toNat < 0x100 then '\\' :: 'x' :: hex 2 c.toNat
  else if c.toNat < 0x10000 then '\\' :: 'u' :: hex 4 c.toNat
  else '\\' :: 'U' :: hex 8 c.toNat

def quoteChar (quote c : Char) : List Char :=
  if c = quote || c = '\\' then ['\\', c]
  else if c = '\n' then ['\\', 'n']
  else if c = '\r' then ['\\', 'r']
  else if c = '\t' then ['\\', 't']
  else if isPrintable c then [c]
  else codeEscape c

def quoted (s : String) : String :=
  let quote := quoteFor s.toList
  String.ofList (quote :: s.toList.flatMap (quoteChar quote) ++ [quote])

/-- One byte between the given quotes; only printable ASCII shows as itself. -/
def quoteByte (quote : Char) (byte : UInt8) : List Char :=
  let c := Char.ofNat byte.toNat
  if byte < 0x7F then quoteChar quote c else '\\' :: 'x' :: hex 2 byte.toNat

/-- Bytes between quotes, marked by a letter. -/
def quotedBytes (bytes : List UInt8) : String :=
  let quote := quoteFor (bytes.map fun byte => Char.ofNat byte.toNat)
  String.ofList ('b' :: quote :: bytes.flatMap (quoteByte quote) ++ [quote])

end LiterateRuby.Text
