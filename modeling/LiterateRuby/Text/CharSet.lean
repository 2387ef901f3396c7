/-! # Sets of characters by flip points

A property of characters holds on a few hundred ranges of code points. `CharSet` keeps the
increasing list of the code points at which membership changes, starting from "not a member", so
that a table holds each range end once.
-/

namespace LiterateRuby.Text

/-- A set of characters, given by the increasing code points at which membership flips. -/
structure CharSet where
  flips : List Nat

namespace CharSet

/-- Membership of a code point, when `inside` is the membership below the first flip. -/
def scan : List Nat → Bool → Nat → Bool
  | [], inside, _ => inside
  | flip :: rest, inside, code => if code < flip then inside else scan rest (!inside) code

def contains (set : CharSet) (c : Char) : Bool := scan set.flips false c.toNat

theorem scan_of_lt {flip code : Nat} {rest : List Nat} {inside : Bool} (below : code < flip) :
    scan (flip :: rest) inside code = inside := by
  simp [scan, below]

end CharSet

end LiterateRuby.Text
