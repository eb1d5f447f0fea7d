import EventHub.Numeric.Double
/-!
# Shortest decimals

The decimal with the fewest digits among those that round to a given double, and of these the one
nearest to it; a tie between two goes to the even digit. Two ways of writing it down: `decimalText`
keeps a mark of being a double (`1.0`, `1e+16`), `plainText` never has an exponent and writes whole
numbers without a point.
-/

namespace EventHub.Numeric

structure Decimal where
  digits : Nat
  exponent : Int
deriving DecidableEq, Repr, Inhabited

def cmpScaled (a : Nat) (i : Int) (n : Nat) (j : Int) : Ordering :=
  compare (a * Nat.pow 10 i.toNat * Nat.pow 2 (-j).toNat)
    (n * Nat.pow 2 j.toNat * Nat.pow 10 (-i).toNat)

namespace Double

def narrowBelow (d : Double) : Bool :=
  d.significand = limit 52 && minExponent < d.exponent

/-- The decimal lies between the midpoints to the two neighbours, so that it rounds to the
magnitude of `d`; the midpoints themselves count when the significand is even. -/
def readsBack (d : Double) (x : Decimal) : Bool :=
  let lo := if d.narrowBelow then 4 * d.significand - 1 else 4 * d.significand - 2
  let hi := 4 * d.significand + 2
  let even := d.significand % 2 = 0
  let cl := cmpScaled x.digits x.exponent lo (d.exponent - 2)
  let ch := cmpScaled x.digits x.exponent hi (d.exponent - 2)
  (cl = .gt || (even && cl = .eq)) && (ch = .lt || (even && ch = .eq))

/-- The least `k` with magnitude below `10 ^ k`. The least positive double exceeds `10 ^ -324`, so
the scaled quotient is positive. -/
def magnitudeOrder (d : Double) : Int :=
  ((Nat.toDigits 10 (d.num * Nat.pow 10 324 / d.den)).length : Int) - 324

/-- The point of the grid of multiples of `10 ^ g` that reads back to `d`, if one does. -/
def onGrid? (d : Double) (g : Int) : Option Decimal :=
  let num := d.num * Nat.pow 10 (-g).toNat
  let den := d.den * Nat.pow 10 g.toNat
  let low : Decimal := ⟨num / den, g⟩
  let high : Decimal := ⟨num / den + 1, g⟩
  match d.readsBack low, d.readsBack high with
  | true, true => some ⟨roundHalfEven num den, g⟩
  | true, false => some low
  | false, true => some high
  | false, false => none

end Double

/-- Moves the trailing zeros of the digits into the exponent, at most `n` of them. -/
def Decimal.strip : Nat → Decimal → Decimal
  | 0, x => x
  | n + 1, x => if x.digits % 10 = 0 then strip n ⟨x.digits / 10, x.exponent + 1⟩ else x

/-- The shortest decimal that reads back to the magnitude of a nonzero `d`. -/
def Double.shortest (d : Double) : Decimal :=
  let k := d.magnitudeOrder
  match (List.range 17).findSome? fun (n : Nat) => d.onGrid? (k - (n + 1)) with
  | some x => x.strip 17
  | none => ⟨d.num * Nat.pow 5 (-d.exponent).toNat, min d.exponent 0⟩

def zeros (n : Nat) : List Char := List.replicate n '0'

/-- The digits with the decimal point at its place: `whole` and then the fractional digits, which
are missing when the exponent is not negative. -/
def Decimal.positional (x : Decimal) : List Char × List Char :=
  let ds := Nat.toDigits 10 x.digits
  if 0 ≤ x.exponent then (ds ++ zeros x.exponent.toNat, [])
  else
    let places := (-x.exponent).toNat
    if places < ds.length then (ds.take (ds.length - places), ds.drop (ds.length - places))
    else (['0'], zeros (places - ds.length) ++ ds)

def Decimal.leading (x : Decimal) : Int :=
  ((Nat.toDigits 10 x.digits).length : Int) - 1 + x.exponent

def Decimal.scientific (x : Decimal) : List Char :=
  let e := x.leading
  let mantissa := match Nat.toDigits 10 x.digits with
    | d :: f :: fs => d :: '.' :: f :: fs
    | ds => ds
  mantissa ++ 'e' :: (if e < 0 then '-' else '+') :: Nat.toDigits 10 e.natAbs

def sign (d : Double) : List Char := if d.negative then ['-'] else []

/-- Positional from `1e-5` up to below `1e16`, with `.0` behind whole numbers; scientific
outside. -/
def Double.decimalText (d : Double) : List Char :=
  sign d ++
    if d.isZero then ['0', '.', '0']
    else
      let x := d.shortest
      if -5 ≤ x.leading && x.leading < 16 then
        match x.positional with
        | (whole, []) => whole ++ ['.', '0']
        | (whole, fraction) => whole ++ '.' :: fraction
      else x.scientific

def Double.plainText (d : Double) : List Char :=
  sign d ++
    if d.isZero then ['0']
    else match d.shortest.positional with
      | (whole, []) => whole
      | (whole, fraction) => whole ++ '.' :: fraction

end EventHub.Numeric
