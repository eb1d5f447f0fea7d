import EventHub.Numeric.Width
import EventHub.Text.Digits
/-!
# Options

An option has one name, from which its long form, its environment variable and its placeholder are
made, and a kind that says which values it takes.
-/

namespace EventHub.CommandLine

inductive ValueKind where
  | text
  /-- Texts separated by commas; the option may be given again for more. -/
  | texts
  /-- One of some words. -/
  | word (words : List String)
  /-- A number below `2 ^ 64`. -/
  | number
  /-- A number below `2 ^ 16`. -/
  | port
deriving DecidableEq, Repr

inductive Value where
  | text (s : String)
  | number (n : Nat)
deriving DecidableEq, Repr

structure Opt where
  /-- Words joined by underscores. -/
  name : String
  letter : Option Char := none
  kind : ValueKind := .text
  /-- The text that stands for a value that is not given. -/
  default : Option String := none
  help : String
deriving DecidableEq, Repr

namespace Opt

def long (o : Opt) : String := String.ofList (o.name.toList.map fun c => if c = '_' then '-' else c)

def capitals (o : Opt) : String := String.ofList (o.name.toList.map Char.toUpper)

def shown (o : Opt) : String := "--" ++ o.long ++ " <" ++ o.capitals ++ ">"

def isRepeatable (o : Opt) : Bool := o.kind = .texts

def words (o : Opt) : List String :=
  match o.kind with
  | .word words => words
  | _ => []

end Opt

inductive NumberFault where
  | empty
  | invalidDigit
  | tooLarge
  | tooSmall
  | outOfRange (n : Int)
deriving DecidableEq, Repr

def NumberFault.message : NumberFault → String
  | .empty => "cannot parse integer from empty string"
  | .invalidDigit => "invalid digit found in string"
  | .tooLarge => "number too large to fit in target type"
  | .tooSmall => "number too small to fit in target type"
  | .outOfRange n => toString n ++ " is not in 0..=65535"

/-- Takes digits in from left to right, as long as the number does not exceed the greatest one. -/
def takeDigits (greatest : Nat) (tooFar : NumberFault) (n : Nat) :
    List Char → Except NumberFault Nat
  | [] => .ok n
  | c :: rest =>
    match Text.digitsValue? [c] with
    | none => .error .invalidDigit
    | some d =>
      if greatest < n * 10 + d then .error tooFar
      else takeDigits greatest tooFar (n * 10 + d) rest

def readDigits (greatest : Nat) (tooFar : NumberFault) (digits : List Char) :
    Except NumberFault Nat :=
  if digits.isEmpty then .error .invalidDigit else takeDigits greatest tooFar 0 digits

/-- Reads digits, behind a plus sign perhaps, as a number below `2 ^ 64`. -/
def readNumber (text : String) : Except NumberFault Nat :=
  match text.toList with
  | [] => .error .empty
  | '+' :: digits => readDigits (Numeric.limit 64 - 1) .tooLarge digits
  | digits => readDigits (Numeric.limit 64 - 1) .tooLarge digits

def portOf (n : Int) : Except NumberFault Nat :=
  if 0 ≤ n && n < Numeric.limit 16 then .ok n.toNat else .error (.outOfRange n)

/-- Reads digits, behind a sign perhaps, first as a number of sixty-four bits. -/
def readPort (text : String) : Except NumberFault Nat :=
  match text.toList with
  | [] => .error .empty
  | '-' :: digits => do portOf (-(← readDigits (Numeric.limit 63) .tooSmall digits : Nat))
  | '+' :: digits => do portOf (← readDigits (Numeric.limit 63 - 1) .tooLarge digits)
  | digits => do portOf (← readDigits (Numeric.limit 63 - 1) .tooLarge digits)

end EventHub.CommandLine
