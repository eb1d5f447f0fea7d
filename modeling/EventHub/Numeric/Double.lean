import EventHub.Numeric.Width
/-!
# Finite doubles

Finite floating-point numbers of double precision, held as a sign, a significand and a power of
two. Each operation takes the exact result as a quotient of natural numbers and rounds it once, to
the nearest double, an exact half to the even significand. An operation that leaves the finite
range returns `none`.
-/

namespace EventHub.Numeric

/-- The quotient rounded to the nearest natural number, an exact half to the even one. -/
def roundHalfEven (num den : Nat) : Nat :=
  let q := num / den
  let r := num % den
  if 2 * r < den then q
  else if den < 2 * r then q + 1
  else if q % 2 = 0 then q
  else q + 1

/-- The greatest `l` with `2 ^ l ≤ num / den`, for a positive quotient. -/
def floorLog2 (num den : Nat) : Int :=
  let l : Int := (num.log2 : Int) - (den.log2 : Int)
  if den * Nat.pow 2 l.toNat ≤ num * Nat.pow 2 (-l).toNat then l else l - 1

/-- A finite double, `± significand * 2 ^ exponent`. Every double made in this file has
`significand < 2 ^ 53` and `-1074 ≤ exponent ≤ 971`, and a significand below `2 ^ 52` only at
the least exponent, so equal values of one sign are equal doubles. -/
structure Double where
  negative : Bool
  significand : Nat
  exponent : Int
deriving DecidableEq, Repr, Inhabited

namespace Double

def minExponent : Int := -1074

def maxExponent : Int := 971

def zero (negative : Bool) : Double := ⟨negative, 0, minExponent⟩

def ofRatio (negative : Bool) (num den : Nat) : Option Double :=
  if num = 0 then some (zero negative)
  else
    let e := max (floorLog2 num den - 52) minExponent
    let m := roundHalfEven (num * Nat.pow 2 (-e).toNat) (den * Nat.pow 2 e.toNat)
    let (m, e) := if m = limit 53 then (limit 52, e + 1) else (m, e)
    if maxExponent < e then none else some ⟨negative, m, e⟩

def ofNat (n : Nat) : Option Double := ofRatio false n 1

def num (d : Double) : Nat := d.significand * Nat.pow 2 d.exponent.toNat

def den (d : Double) : Nat := Nat.pow 2 (-d.exponent).toNat

def isZero (d : Double) : Bool := d.significand = 0

def neg (d : Double) : Double := { d with negative := !d.negative }

def mul (a b : Double) : Option Double :=
  ofRatio (a.negative != b.negative) (a.num * b.num) (a.den * b.den)

def div (a b : Double) : Option Double :=
  ofRatio (a.negative != b.negative) (a.num * b.den) (a.den * b.num)

def addMagnitudes (a b : Double) : Option Double :=
  ofRatio false (a.num * b.den + b.num * a.den) (a.den * b.den)

def tenPow (k : Nat) : Option Double := ofRatio false (Nat.pow 10 k) 1

end Double

end EventHub.Numeric
