import LiterateRuby.Text.Case
import LiterateRuby.Text.Line

/-! # Unit names from file names

A text without a heading of level one is named after its file: the words of the file's stem
between underscores, each with a capital first letter.
-/

namespace LiterateRuby.Literate

/-- The last component of a path; empty and single-dot components do not count. -/
def lastComponent (path : List Char) : List Char :=
  (((Text.splitOn '/' path).filter fun part => part != [] && part != ['.']).getLast?).getD []

/-- A file name without its last extension. A dot at the start or at the end begins no extension. -/
def stem (name : List Char) : List Char :=
  let reversed := name.reverse
  let extension := reversed.takeWhile (· != '.')
  match reversed.dropWhile (· != '.') with
  | _ :: before => if extension.isEmpty || before.isEmpty then name else before.reverse
  | [] => name

/-- A word with a capital first letter and small letters after it. -/
def capitalized : List Char → List Char
  | [] => []
  | first :: rest => Text.upperChar first ++ Text.lower rest

def unitNameOf (filename : String) : String :=
  String.ofList ((Text.splitOn '_' (stem (lastComponent filename.toList))).flatMap capitalized)

end LiterateRuby.Literate
