/-!
# Digits

The numbers that decimal digits stand for. Nothing else may stand among the digits.
-/

namespace EventHub.Text

/-- The number that digits stand for, `none` without digits or with another character. -/
def digitsValue? (digits : List Char) : Option Nat :=
  if digits.isEmpty then none
  else digits.foldl (fun n? c =>
    match n? with
    | some n => if '0' ≤ c && c ≤ '9' then some (n * 10 + (c.toNat - '0'.toNat)) else none
    | none => none) (some 0)

end EventHub.Text
