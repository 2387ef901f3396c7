import LiterateRuby.Number.Natural

/-! # Binary floating-point numbers of 64 bits

A finite number is `mantissa * 2 ^ exponent` with a sign. `ofRatio` rounds a quotient of natural
numbers to the nearest such number, a tie to the even mantissa, so that reading a decimal, adding
and multiplying are one rounding of an exact result each.
-/

namespace LiterateRuby.Number

/-- A binary floating-point number of 64 bits. -/
inductive Binary64 where
  | nan
  | infinite (negative : Bool)
  | finite (negative : Bool) (mantissa : Nat) (exponent : Int)
  deriving DecidableEq, Repr, Inhabited

namespace Binary64

/-- The least exponent; the numbers at it are evenly spaced down to zero. -/
def leastExponent : Int := -1074

def greatestExponent : Int := 971

def zero (negative : Bool) : Binary64 := .finite negative 0 leastExponent

/-- The quotient `num * 2 ^ (-exponent) / den`, rounded to the nearest natural number, a tie to the
even one. -/
def roundedQuotient (num den : Nat) (exponent : Int) : Nat :=
  let top := num * power 2 (-exponent).toNat
  let bottom := den * power 2 exponent.toNat
  let quotient := top / bottom
  let rest := top % bottom
  if 2 * rest < bottom then quotient
  else if bottom < 2 * rest then quotient + 1
  else if quotient % 2 = 0 then quotient else quotient + 1

/-- The exponent at which a positive quotient has 53 binary digits, or the least one. -/
def exponentFor (num den : Nat) : Int :=
  let guess : Int := (num.log2 : Int) - (den.log2 : Int) - 52
  let top := num * power 2 (-guess).toNat
  let bottom := den * power 2 guess.toNat
  let exact := if top / bottom < power 2 52 then guess - 1 else guess
  max exact leastExponent

/-- The number nearest to a quotient of natural numbers. -/
def ofRatio (negative : Bool) (num den : Nat) : Binary64 :=
  if num = 0 then zero negative
  else
    let exponent := exponentFor num den
    let mantissa := roundedQuotient num den exponent
    let (mantissa, exponent) :=
      if mantissa = power 2 53 then (power 2 52, exponent + 1) else (mantissa, exponent)
    if greatestExponent < exponent then .infinite negative
    else .finite negative mantissa exponent

/-- The number nearest to `digits * 10 ^ scale`. Scales beyond the range of all numbers are not
computed. -/
def ofDecimal (negative : Bool) (digits : Nat) (scale : Int) : Binary64 :=
  let places : Int := (Nat.toDigits 10 digits).length
  if digits = 0 then zero negative
  else if 400 < places + scale then .infinite negative
  else if places + scale < -400 then zero negative
  else ofRatio negative (digits * power 10 scale.toNat) (power 10 (-scale).toNat)

/-- The number nearest to an integer. -/
def ofInt (i : Int) : Binary64 := ofRatio (i < 0) i.natAbs 1

def neg : Binary64 → Binary64
  | .nan => .nan
  | .infinite negative => .infinite (!negative)
  | .finite negative mantissa exponent => .finite (!negative) mantissa exponent

def isZero : Binary64 → Bool
  | .finite _ mantissa _ => mantissa == 0
  | _ => false

/-- The exact value of a finite number over a power of two: `(signed numerator, denominator)`. -/
def ratio? : Binary64 → Option (Int × Nat)
  | .finite negative mantissa exponent =>
    let magnitude : Nat := mantissa * power 2 exponent.toNat
    some (if negative then -(magnitude : Int) else magnitude, power 2 (-exponent).toNat)
  | _ => none

def ofSignedRatio (num : Int) (den : Nat) : Binary64 := ofRatio (num < 0) num.natAbs den

def add (x y : Binary64) : Binary64 :=
  match x, y with
  | .nan, _ | _, .nan => .nan
  | .infinite a, .infinite b => if a = b then .infinite a else .nan
  | .infinite a, _ | _, .infinite a => .infinite a
  | x, y =>
    match x.ratio?, y.ratio? with
    | some (a, b), some (c, d) => ofSignedRatio (a * d + c * b) (b * d)
    | _, _ => .nan

def mul (x y : Binary64) : Binary64 :=
  match x, y with
  | .nan, _ | _, .nan => .nan
  | .infinite a, .infinite b => .infinite (a != b)
  | .infinite a, .finite b mantissa _ | .finite b mantissa _, .infinite a =>
    if mantissa = 0 then .nan else .infinite (a != b)
  | .finite a m p, .finite b n q =>
    let exponent := p + q
    ofRatio (a != b) (m * n * power 2 exponent.toNat) (power 2 (-exponent).toNat)

def equalsInt (x : Binary64) (i : Int) : Bool :=
  match x.ratio? with
  | some (num, den) => num == i * den
  | none => false

/-- Numeric equality: the zeros are equal and a number that is not a number equals nothing. -/
def numericEq : Binary64 → Binary64 → Bool
  | .nan, _ | _, .nan => false
  | x, y => (x.isZero && y.isZero) || x == y

end Binary64

end LiterateRuby.Number
