import LiterateRuby.Session
import LiterateRuby.Proofs.Literate.Methods
import LiterateRuby.Proofs.Literate.Splitting
import LiterateRuby.Proofs.Literate.Settled
import LiterateRuby.Proofs.Ruby.Span
import LiterateRuby.Proofs.Ruby.Diagnostics
import LiterateRuby.Proofs.Ruby.Statement
import LiterateRuby.Proofs.Ruby.Event
import LiterateRuby.Proofs.Ruby.Indent
import LiterateRuby.Proofs.Ruby.Keyword
import LiterateRuby.Proofs.Ruby.Visibility
import LiterateRuby.Proofs.Ruby.Prose
import LiterateRuby.Proofs.Ruby.Methods
import LiterateRuby.Proofs.Forest
import LiterateRuby.Proofs.Literate.Declaration
import LiterateRuby.Proofs.Literate.FrontMatter
import LiterateRuby.Proofs.Literate.Rebuilt
import LiterateRuby.Proofs.Literate.RoundTrip
import LiterateRuby.Proofs.Namespace
import LiterateRuby.Proofs.Literate.FirstUnit
import LiterateRuby.Proofs.Draft.Consistent
import LiterateRuby.Proofs.Literate.Legible
import LiterateRuby.Proofs.UnitName
import LiterateRuby.Proofs.Literate.Accepted
import LiterateRuby.Proofs.Literate.Composed
import LiterateRuby.Proofs.Inhabited
import LiterateRuby.Proofs.Forest.Blocks
import LiterateRuby.Proofs.Draft.Refused
import LiterateRuby.Proofs.Literate.Faults
import LiterateRuby.Proofs.Literate.Rejected
import LiterateRuby.Proofs.Draft.Matter
import LiterateRuby.Proofs.Literate.Carried
import LiterateRuby.Proofs.Literate.Separated
import LiterateRuby.Proofs.Literate.Fences
import LiterateRuby.Proofs.Ruby.Heredoc
import LiterateRuby.Proofs.Ruby.Assignment
import LiterateRuby.Proofs.Ruby.Definitions
import LiterateRuby.Proofs.Literate.Values
import LiterateRuby.Proofs.Literate.Kept
import LiterateRuby.Proofs.Literate.DeclaredNames
import LiterateRuby.Proofs.Constant
import LiterateRuby.Proofs.Ruby.Quotation
import LiterateRuby.Proofs.Ruby.Verbatim
import LiterateRuby.Proofs.Number.Digits
import LiterateRuby.Proofs.Number.Rounding
import LiterateRuby.Proofs.Number.Reading
import LiterateRuby.Proofs.Number.Grid
import LiterateRuby.Proofs.Number.Shortest
import LiterateRuby.Proofs.Number.Layout
import LiterateRuby.Proofs.Number.Spelling
import LiterateRuby.Proofs.Literate.Faithful
import LiterateRuby.Proofs.Literate.Bodiless
import LiterateRuby.Proofs.Ruby.Parameters
import LiterateRuby.Proofs.Draft.Opened
import LiterateRuby.Proofs.Draft.Announced
import LiterateRuby.Proofs.Literate.Fenceless
import LiterateRuby.Proofs.Literate.OneBlock
