import LiterateRuby.Datum

/-! # The data format of front matter

Front matter is a block of data. How blocks are decoded and written is not part of this library: it asks for a
`DataFormat` and takes what comes back as it is. A decoder has errors of its own for a block that is malformed;
anything else that it raises passes through under the name of its class. Decoded values are finite.
-/

namespace LiterateRuby

namespace DataFormat

/-- How decoding a block ends without a value. -/
inductive Fault where
  /-- The block is not well-formed, or a part of it has no meaning in the format. -/
  | malformed
  /-- An exception of another class ends the decoding. -/
  | raised (className : String)
  deriving DecidableEq, Repr

/-- A value of a block that is written. -/
inductive Item where
  | text (value : String)
  | texts (values : List String)
  | entries (pairs : List (String × String))
  deriving DecidableEq, Repr

end DataFormat

/-- A component that decodes the text of a block and writes named items as the lines of one. -/
class DataFormat where
  decode : List Char → Except DataFormat.Fault Datum
  write : List (String × DataFormat.Item) → List String

end LiterateRuby
