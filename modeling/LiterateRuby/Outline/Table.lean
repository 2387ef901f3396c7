import LiterateRuby.Outline.Markup
import LiterateRuby.Outline.Wrap

/-! # Boxed tables

A table has a title, a heading row and rows of cells. Each cell has one space on either side.
Columns are as wide as their widest cell; in a table that is too wide, the widest columns give way
first, then all of them evenly.
-/

namespace LiterateRuby.Outline

open Text

structure Column where
  heading : String
  alignment : Alignment
  cells : List String

structure Table where
  title : String
  columns : List Column

namespace Table

def textWidth (text : String) : Nat := ((lines (plain text)).map Text.cells).foldl max 0

/-- The width of a column with the spaces around its cells, at most as given. -/
def columnWidth (limit : Nat) (column : Column) : Nat :=
  min limit (((column.heading :: column.cells).map textWidth).foldl max 0 + 2)

/-- A quotient rounded to the nearest number, a half to the even one. -/
def roundedQuotient (amount divisor : Nat) : Nat :=
  let quotient := amount / divisor
  let twice := 2 * (amount % divisor)
  if twice < divisor then quotient
  else if divisor < twice then quotient + 1
  else quotient + quotient % 2

/-- Takes an excess away from widths, as evenly as possible and from each at most its limit. -/
def share (excess : Nat) : List (Nat × Nat) → List Nat
  | [] => []
  | (width, limit) :: rest =>
    if limit = 0 then width :: share excess rest
    else
      let sharers := (rest.filter (·.2 != 0)).length + 1
      let taken := min limit (roundedQuotient excess sharers)
      (width - taken) :: share (excess - taken) rest

/-- Narrows the widest columns down to the next widest ones, as often as needed until the widths
fit. -/
def narrowWidest : Nat → Nat → List Nat → List Nat
  | 0, _, widths => widths
  | rounds + 1, limit, widths =>
    if Number.total widths ≤ limit then widths
    else
      let widest := widths.foldl max 0
      let next := (widths.filter (· != widest)).foldl max 0
      let most := min (Number.total widths - limit) (widest - next)
      narrowWidest rounds limit
        (share (Number.total widths - limit)
          (widths.map fun width => (width, if width = widest then most else 0)))

/-- Narrows all columns evenly by what is too much. -/
def narrowAll (limit : Nat) (widths : List Nat) : List Nat :=
  if Number.total widths ≤ limit then widths
  else share (Number.total widths - limit) (widths.map fun width => (width, width))

/-- The widths of the columns in a given width, borders apart. -/
def columnWidths (limit : Nat) (columns : List Column) : List Nat :=
  let natural := columns.map (columnWidth limit)
  if Number.total natural ≤ limit then natural
  else
    let narrowed := narrowAll limit (narrowWidest (Number.total natural) limit natural)
    narrowed.zipWith columnWidth columns

/-- The lines of a cell with a space on either side; a cell without room has none. -/
def cellLines (alignment : Alignment) (width : Nat) (text : String) : List (List Char) :=
  if width ≤ 2 then []
  else (wrapCell alignment (width - 2) (plain text)).map fun line => ' ' :: line ++ [' ']

/-- A row of cells between borders. Cells with fewer lines are filled with blank lines. -/
def rowLines (border divider : Char) (atBottom : Bool) (cells : List (Nat × List (List Char))) :
    List (List Char) :=
  let height := (cells.map (·.2.length)).foldl max 1
  let shaped := cells.map fun (width, lines) =>
    let blank := List.replicate (height - lines.length) (spaces width)
    if atBottom then blank ++ lines else lines ++ blank
  (List.range height).map fun index =>
    border :: ((shaped.map fun lines => lines.getD index []).intersperse [divider]).flatten ++ [border]

def border (left line divider right : Char) (widths : List Nat) : List Char :=
  left :: ((widths.map fun width => List.replicate width line).intersperse [divider]).flatten ++
    [right]

/-- The cells of the columns as rows. -/
def rows (columns : List Column) : List (List (Alignment × String)) :=
  let count := (columns.map (·.cells.length)).foldl max 0
  (List.range count).map fun index =>
    columns.map fun column => (column.alignment, column.cells.getD index "")

def lines (width : Nat) (table : Table) : List (List Char) :=
  let borders := table.columns.length + 1
  let widths := columnWidths (width - borders) table.columns
  let tableWidth := Number.total widths + borders
  let measured (cells : List (Alignment × String)) : List (Nat × List (List Char)) :=
    widths.zipWith (fun width (alignment, text) => (width, cellLines alignment width text)) cells
  let drawn :=
    wrapCell .center tableWidth (plain table.title) ++
    [border '┏' '━' '┳' '┓' widths] ++
    rowLines '┃' '┃' true
      (measured (table.columns.map fun column => (column.alignment, column.heading))) ++
    [border '┡' '━' '╇' '┩' widths] ++
    (rows table.columns).flatMap (fun row => rowLines '│' '│' false (measured row)) ++
    [border '└' '─' '┴' '┘' widths]
  drawn.map fun line => if width < Text.cells line then cropTo width line else line

end Table

end LiterateRuby.Outline
