import EventHub.Numeric.Width
import EventHub.Text.Blank
import EventHub.Time.Timestamp.Basic
/-!
# Reading timestamps

A lenient reader: blanks may stand before every number and separator, numbers need not be padded,
the fraction may have any number of digits, and the offset may be `Z`, `UTC`, or hours and minutes
behind a sign. The moment is then moved to universal time.
-/

namespace EventHub.Time

inductive TimeFault where
  | tooShort
  | tooLong
  | invalid
  | outOfRange
  | impossible
deriving DecidableEq, Repr

def TimeFault.message : TimeFault → String
  | .tooShort => "premature end of input"
  | .tooLong => "trailing input"
  | .invalid => "input contains invalid characters"
  | .outOfRange => "input is out of range"
  | .impossible => "no possible date and time matching input"

namespace Timestamp.Reader

abbrev Parsed (α : Type) := Except TimeFault (α × List Char)

def digit? (c : Char) : Option Nat :=
  if '0' ≤ c && c ≤ '9' then some (c.toNat - '0'.toNat) else none

/-- Takes up to `width` digits onto `n`; a number of more than sixty-three bits is out of range. -/
def takeNumber (width n : Nat) (text : List Char) : Parsed Nat :=
  match width, text with
  | 0, text => .ok (n, text)
  | _, [] => .ok (n, [])
  | width + 1, c :: rest =>
    match digit? c with
    | none => .ok (n, c :: rest)
    | some d =>
      if n * 10 + d < Numeric.limit 63 then takeNumber width (n * 10 + d) rest
      else .error .outOfRange

def number (width : Nat) : List Char → Parsed Nat
  | [] => .error .tooShort
  | c :: rest =>
    match digit? c with
    | none => .error .invalid
    | some _ => takeNumber width 0 (c :: rest)

def boundedNumber (low high : Nat) (text : List Char) : Parsed Nat :=
  match number 2 (Text.trimStart text) with
  | .error e => .error e
  | .ok (n, rest) => if low ≤ n && n ≤ high then .ok (n, rest) else .error .outOfRange

def year (text : List Char) : Parsed Int :=
  let signed (negative : Bool) (rest : List Char) : Parsed Int :=
    match number rest.length rest with
    | .error e => .error e
    | .ok (n, rest) =>
      if n < Numeric.limit 31 || (negative && n = Numeric.limit 31) then
        .ok (if negative then -(n : Int) else n, rest)
      else .error .outOfRange
  match Text.trimStart text with
  | '-' :: rest => signed true rest
  | '+' :: rest => signed false rest
  | rest =>
    match number 4 rest with
    | .error e => .error e
    | .ok (n, rest) => .ok ((n : Int), rest)

def separator (mark : Char) (text : List Char) : Except TimeFault (List Char) :=
  match Text.trimStart text with
  | [] => .error .tooShort
  | c :: rest => if c = mark then .ok rest else .error .invalid

def dateEnd : List Char → Except TimeFault (List Char)
  | [] => .error .tooShort
  | c :: rest => if c = 't' || c = 'T' || c = ' ' then .ok rest else .error .invalid

/-- The digits of a fraction as nanoseconds: nine digits count, the others are passed over. -/
def fractionDigits (text : List Char) : Parsed Nat :=
  match number 9 text with
  | .error e => .error e
  | .ok (n, rest) =>
    .ok (n * Nat.pow 10 (9 - (text.length - rest.length)),
      rest.dropWhile fun c => (digit? c).isSome)

def fraction : List Char → Parsed Nat
  | '.' :: rest => fractionDigits rest
  | rest => .ok (0, rest)

/-- The number of bytes that two characters to be read need at least. -/
def shorterThan (bytes : Nat) (text : List Char) : Bool :=
  text.foldl (fun n c => n + c.utf8Size) 0 < bytes

/-- Hours and minutes of an offset behind its sign, in seconds. -/
def offsetParts (negative : Bool) (text : List Char) : Parsed Int :=
  if shorterThan 2 text then .error .tooShort
  else match text with
    | a :: b :: rest =>
      match digit? a, digit? b with
      | some a, some b =>
        let rest := rest.dropWhile fun c => c = ':' || Text.isBlank c
        if shorterThan 2 rest then .error .tooShort
        else match rest with
          | c :: d :: rest =>
            match digit? c, digit? d with
            | some c, some d =>
              if 6 ≤ c then .error .outOfRange
              else
                let seconds : Int := ((a * 10 + b) * 3600 + (c * 10 + d) * 60 : Nat)
                .ok (if negative then -seconds else seconds, rest)
            | _, _ => .error .invalid
          | _ => .error .invalid
      | _, _ => .error .invalid
    | _ => .error .invalid

def offset (text : List Char) : Parsed Int :=
  match text with
  | [] => .error .tooShort
  | 'Z' :: rest | 'z' :: rest => .ok (0, rest)
  | '+' :: rest => offsetParts false rest
  | '-' :: rest | '\u2212' :: rest => offsetParts true rest
  | u :: t :: c :: rest =>
    if (u = 'U' || u = 'u') && (t = 'T' || t = 't') && (c = 'C' || c = 'c') then .ok (0, rest)
    else .error .invalid
  | _ => .error .invalid

end Timestamp.Reader

/-- The moment of universal time when clocks with the offset show the given date and second. -/
def Timestamp.ofLocal? (date : Date) (second nanos : Nat) (offset : Int) : Option Timestamp :=
  let shifted := (second : Int) - offset
  let date? :=
    if shifted < 0 then date.previous?
    else if 86400 ≤ shifted then date.next?
    else some date
  let second := (shifted % 86400).toNat
  match date? with
  | none => none
  | some date =>
    if h : second < 86400 ∧ nanos < 2000000000 ∧
        (1000000000 ≤ nanos → second % 60 = 59) then
      some ⟨date, second, nanos, h.1, h.2.1, h.2.2⟩
    else none

open Timestamp.Reader in
def Timestamp.read (text : List Char) : Except TimeFault Timestamp := do
  let (year, rest) ← year text
  let rest ← separator '-' rest
  let (month, rest) ← boundedNumber 1 12 rest
  let rest ← separator '-' rest
  let (day, rest) ← boundedNumber 1 31 rest
  let rest ← dateEnd rest
  let (hour, rest) ← boundedNumber 0 23 rest
  let rest ← separator ':' rest
  let (minute, rest) ← boundedNumber 0 59 rest
  let rest ← separator ':' rest
  let (second, rest) ← boundedNumber 0 60 rest
  let (nanos, rest) ← fraction rest
  let (offset, rest) ← offset (Text.trimStart rest)
  unless (Text.trimStart rest).isEmpty do throw .tooLong
  let some date := Date.ofParts? year month day | throw .outOfRange
  unless -86400 < offset && offset < 86400 do throw .outOfRange
  let (second, nanos) := if second = 60 then (59, nanos + 1000000000) else (second, nanos)
  let some t := Timestamp.ofLocal? date (hour * 3600 + minute * 60 + second) nanos offset
    | throw .impossible
  return t

end EventHub.Time
