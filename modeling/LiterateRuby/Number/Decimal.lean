import LiterateRuby.Number.Binary64
import LiterateRuby.Text.Digit

/-! # Decimal text of numbers

Integers are written in plain decimal digits. A floating-point number is written with the fewest
digits that read back as the same number, nearest to it among those; `Style` says when an exponent
is used.
-/

namespace LiterateRuby.Number

def natDigits (n : Nat) : List Char := Nat.toDigits 10 n

def intText (i : Int) : String :=
  String.ofList (if i < 0 then '-' :: natDigits i.natAbs else natDigits i.natAbs)

/-- The most digits that an integer text may have. -/
def maxIntDigits : Nat := 4300

/-- An integer has too many digits to be read or written. -/
structure TooManyDigits where
  digits : Nat
  deriving DecidableEq, Repr

/-- The number of digits of an integer, if there are too many of them. -/
def overlong? (i : Int) : Option Nat :=
  let count := (natDigits i.natAbs).length
  if maxIntDigits < count then some count else none

/-- The decimal text of an integer, if it may be written. -/
def writtenInt (i : Int) : Except TooManyDigits String :=
  match overlong? i with
  | some digits => .error ⟨digits⟩
  | none => .ok (intText i)

namespace Binary64

/-- The reals that round to a positive number `mantissa * 2 ^ exponent`, in units of
`2 ^ (exponent - 2)`: lower end, value, upper end, and whether the ends belong. -/
structure Neighbourhood where
  lower : Nat
  value : Nat
  upper : Nat
  exponent : Int
  closed : Bool

/-- The neighbourhood of a positive number; below a power of two the gap is half as wide. -/
def neighbourhood (mantissa : Nat) (exponent : Int) : Neighbourhood :=
  let narrow := mantissa = power 2 52 ∧ leastExponent < exponent
  { lower := 4 * mantissa - (if narrow then 1 else 2)
    value := 4 * mantissa
    upper := 4 * mantissa + 2
    exponent := exponent - 2
    closed := mantissa % 2 = 0 }

/-- The number of decimal places left of the point of `num / den`, at most zero below one. -/
def decimalPoint (num den : Nat) : Int :=
  if den ≤ num then (Nat.toDigits 10 (num / den)).length
  else
    let inverse := (Nat.toDigits 10 ((den - 1) / num)).length
    1 - (inverse : Int)

/-- A multiple `digits * 10 ^ scale` within the neighbourhood that is nearest to its value among the
two grid points beside the value. -/
def gridPoint? (hood : Neighbourhood) (scale : Int) : Option Nat :=
  let scaleNum := power 2 hood.exponent.toNat * power 10 (-scale).toNat
  let scaleDen := power 2 (-hood.exponent).toNat * power 10 scale.toNat
  let lower := hood.lower * scaleNum
  let value := hood.value * scaleNum
  let upper := hood.upper * scaleNum
  let inside (digits : Nat) : Bool :=
    if hood.closed then lower ≤ digits * scaleDen && digits * scaleDen ≤ upper
    else lower < digits * scaleDen && digits * scaleDen < upper
  let below := value / scaleDen
  let above := below + 1
  let gapBelow := value - below * scaleDen
  let gapAbove := above * scaleDen - value
  match below != 0 && inside below, inside above with
  | true, true =>
    if gapBelow < gapAbove then some below
    else if gapAbove < gapBelow then some above
    else if below % 2 = 0 then some below else some above
  | true, false => some below
  | false, true => some above
  | false, false => none

/-- The first grid, from coarse to fine, that has a point in the neighbourhood: the digits and the
power of ten of their last place. -/
def shortestFrom (hood : Neighbourhood) (point : Int) : Nat → Nat → Nat × Int
  | 0, _ => (0, 0)
  | more + 1, places =>
    let scale := point - places
    match gridPoint? hood scale with
    | some digits => (digits, scale)
    | none => shortestFrom hood point more (places + 1)

/-- The fewest digits that read back as a positive number, and the power of ten of the last one. -/
def shortest (mantissa : Nat) (exponent : Int) : Nat × Int :=
  let hood := neighbourhood mantissa exponent
  let num := hood.value * power 2 hood.exponent.toNat
  let den := power 2 (-hood.exponent).toNat
  shortestFrom hood (decimalPoint num den) 18 1

def dropTrailingZeros (digits : List Char) : List Char :=
  (digits.reverse.dropWhile (· == '0')).reverse

/-- An exponent with its sign and at least two digits. -/
def exponentText (exponent : Int) : List Char :=
  let digits := natDigits exponent.natAbs
  let padded := if digits.length < 2 then '0' :: digits else digits
  (if exponent < 0 then '-' else '+') :: padded

/-- Digits with a point: positional while the point lies within sixteen places right and three
places left of the first digit, with an exponent otherwise. -/
def layout (digits : List Char) (point : Int) : List Char :=
  let count : Int := digits.length
  if point ≤ -4 ∨ 16 < point then
    let fraction := match digits.drop 1 with
      | [] => []
      | more => '.' :: more
    digits.take 1 ++ fraction ++ 'e' :: exponentText (point - 1)
  else if point ≤ 0 then '0' :: '.' :: List.replicate (-point).toNat '0' ++ digits
  else if count ≤ point then digits ++ List.replicate (point - count).toNat '0' ++ ['.', '0']
  else digits.take point.toNat ++ '.' :: digits.drop point.toNat

/-- The decimal text of a floating-point number. -/
def text : Binary64 → String
  | .nan => "nan"
  | .infinite negative => if negative then "-inf" else "inf"
  | .finite negative mantissa exponent =>
    let magnitude :=
      if mantissa = 0 then ['0', '.', '0']
      else
        let (digits, scale) := shortest mantissa exponent
        let all := natDigits digits
        layout (dropTrailingZeros all) (scale + all.length)
    String.ofList (if negative then '-' :: magnitude else magnitude)

/-- Reads an optional sign, digits with an optional point, and an optional exponent, of any script's
digits. -/
def ofText? (cs : List Char) : Option Binary64 :=
  let (negative, body) := match cs with
    | '-' :: rest => (true, rest)
    | '+' :: rest => (false, rest)
    | rest => (false, rest)
  let whole := body.takeWhile Text.isDigit
  let afterWhole := body.dropWhile Text.isDigit
  let (fraction, afterFraction) := match afterWhole with
    | '.' :: rest => (rest.takeWhile Text.isDigit, rest.dropWhile Text.isDigit)
    | rest => ([], rest)
  let number (scale : Int) :=
    some (ofDecimal negative (Text.digitsValue (whole ++ fraction)) (scale - fraction.length))
  if whole.isEmpty && fraction.isEmpty then
    match String.ofList (body.map Char.toLower) with
    | "inf" | "infinity" => some (.infinite negative)
    | "nan" => some .nan
    | _ => none
  else
    match afterFraction with
    | [] => number 0
    | 'e' :: rest | 'E' :: rest =>
      let (down, places) := match rest with
        | '-' :: places => (true, places)
        | '+' :: places => (false, places)
        | places => (false, places)
      if places.isEmpty || !places.all Text.isDigit then none
      else
        let scale : Int := Text.digitsValue places
        number (if down then -scale else scale)
    | _ => none

end Binary64

/-- Reads an optional minus sign and digits of any script. -/
def intOfText? (cs : List Char) : Option Int :=
  let (negative, digits) := match cs with
    | '-' :: rest => (true, rest)
    | rest => (false, rest)
  if digits.isEmpty || !digits.all Text.isDigit then none
  else
    let value : Int := Text.digitsValue digits
    some (if negative then -value else value)

end LiterateRuby.Number
