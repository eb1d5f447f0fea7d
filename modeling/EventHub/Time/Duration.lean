import EventHub.Numeric.Shortest
/-!
# Durations

A span of time in whole nanoseconds, and three ways to write it: in whole milliseconds, as a number
of seconds, and in the largest unit that it fills.
-/

namespace EventHub.Time

structure Duration where
  nanoseconds : Nat
deriving DecidableEq, Repr, Inhabited

namespace Duration

instance : LT Duration := ⟨fun a b => a.nanoseconds < b.nanoseconds⟩

instance : LE Duration := ⟨fun a b => a.nanoseconds ≤ b.nanoseconds⟩

instance (a b : Duration) : Decidable (a < b) :=
  inferInstanceAs (Decidable (a.nanoseconds < b.nanoseconds))

instance (a b : Duration) : Decidable (a ≤ b) :=
  inferInstanceAs (Decidable (a.nanoseconds ≤ b.nanoseconds))

def ofSeconds (n : Nat) : Duration := ⟨n * 1000000000⟩

def ofMillis (n : Nat) : Duration := ⟨n * 1000000⟩

def ofParts (seconds nanos : Nat) : Duration := ⟨seconds * 1000000000 + nanos⟩

def seconds (d : Duration) : Nat := d.nanoseconds / 1000000000

def subsecond (d : Duration) : Nat := d.nanoseconds % 1000000000

def millis (d : Duration) : Nat := d.nanoseconds / 1000000

def isZero (d : Duration) : Bool := d.nanoseconds = 0

def secondsDouble (d : Duration) : Option Numeric.Double := do
  let whole ← Numeric.Double.ofNat d.seconds
  let fraction ← Numeric.Double.ofRatio false d.subsecond 1000000000
  whole.addMagnitudes fraction

def secondsText (d : Duration) : String :=
  match d.secondsDouble with
  | some x => String.ofList x.plainText
  | none => toString d.seconds

/-- `whole` and, behind a point, `fraction / 10 ^ places` without trailing zeros. -/
private def decimal (whole fraction places : Nat) : String :=
  let digits := Nat.toDigits 10 fraction
  let padded := List.replicate (places - digits.length) '0' ++ digits
  let kept := (padded.reverse.dropWhile (· = '0')).reverse
  if kept.isEmpty then toString whole else toString whole ++ "." ++ String.ofList kept

def unitText (d : Duration) : String :=
  if 1000000000 ≤ d.nanoseconds then decimal d.seconds d.subsecond 9 ++ "s"
  else if 1000000 ≤ d.nanoseconds then
    decimal (d.nanoseconds / 1000000) (d.nanoseconds % 1000000) 6 ++ "ms"
  else if 1000 ≤ d.nanoseconds then
    decimal (d.nanoseconds / 1000) (d.nanoseconds % 1000) 3 ++ "µs"
  else toString d.nanoseconds ++ "ns"

end Duration

end EventHub.Time
