import LiterateRuby.DataFormat
import LiterateRuby.Proofs.Text.Lines

/-! # What front matter asks of its data format

Where a document comes back from its text, the block of its front matter is taken to load as what was written
(`Loads`): no line of it ends the block, and it is decoded to the mapping of its items. Nothing else is assumed
of a `DataFormat`.
-/

namespace LiterateRuby.DataFormat

def hyphens : List Char := ['-', '-', '-']

/-- A line of a block: no further line break, and no hyphens that would end the block. -/
def Inner (line : List Char) : Prop := Text.Unbroken line ∧ ¬hyphens <+: line

def Item.datum : Item → Datum
  | .text value => .str value
  | .texts values => .list (values.map .str)
  | .entries pairs => .map (pairs.map fun (key, value) => (.str key, .str value))

/-- A written block loads as the mapping of its items. Three hyphens at the start of a line begin another block, so
the lines of one that loads do not start with them. -/
structure Loads [DataFormat] (items : List (String × Item)) : Prop where
  inner : ∀ line ∈ write items, Inner line.toList
  decoded : decode (Text.unlines ((write items).map String.toList)) =
    .ok (.map (items.map fun (name, value) => (.str name, value.datum)))

end LiterateRuby.DataFormat
