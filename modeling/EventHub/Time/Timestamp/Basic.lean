import EventHub.Time.Date
/-!
# Timestamps

Moments of universal time to the nanosecond, leap seconds included: during a leap second the
nanoseconds run on from one thousand million. `Timestamp.text` writes the internet date and time
format with a fraction of zero, three, six or nine digits, whichever is the shortest exact one.
-/

namespace EventHub.Time

@[ext] structure Timestamp where
  date : Date
  /-- Seconds since midnight, a leap second counting with the one before it. -/
  second : Nat
  nanos : Nat
  second_lt : second < 86400
  nanos_lt : nanos < 2000000000
  /-- Only the last second of a minute can be followed by a leap second. -/
  leap : 1000000000 ≤ nanos → second % 60 = 59
deriving DecidableEq, Repr

def padded (width n : Nat) : List Char :=
  let digits := Nat.toDigits 10 n
  List.replicate (width - digits.length) '0' ++ digits

/-- Four digits for the years of four digits, otherwise a sign and at least four digits. -/
def yearText (year : Int) : List Char :=
  if 0 ≤ year && year ≤ 9999 then padded 4 year.toNat
  else (if year < 0 then '-' else '+') :: padded 4 year.natAbs

def Date.text (d : Date) : List Char :=
  yearText d.year ++ '-' :: padded 2 d.month ++ '-' :: padded 2 d.day

/-- Nothing for a whole second, otherwise a point and three, six or nine digits. -/
def fractionText (nanos : Nat) : List Char :=
  if nanos = 0 then []
  else if nanos % 1000000 = 0 then '.' :: padded 3 (nanos / 1000000)
  else if nanos % 1000 = 0 then '.' :: padded 6 (nanos / 1000)
  else '.' :: padded 9 nanos

namespace Timestamp

def epoch : Timestamp :=
  ⟨⟨1970, 1, 1, by decide, by decide⟩, 0, 0, by decide, by decide, by decide⟩

def afterEpoch? (seconds nanos : Nat) : Option Timestamp :=
  (Nat.repeat (fun d? => d?.bind Date.next?) (seconds / 86400) (some epoch.date)).map fun date =>
    ⟨date, seconds % 86400, nanos % 1000000000, Nat.mod_lt _ (by decide), by omega, by omega⟩

def isLeap (t : Timestamp) : Bool := 1000000000 ≤ t.nanos

def secondOfMinute (t : Timestamp) : Nat := t.second % 60 + (if t.isLeap then 1 else 0)

def timeText (t : Timestamp) : List Char :=
  padded 2 (t.second / 3600) ++ ':' :: padded 2 (t.second / 60 % 60) ++
    ':' :: padded 2 t.secondOfMinute ++ fractionText (t.nanos % 1000000000)

def textWith (zone : List Char) (t : Timestamp) : List Char :=
  t.date.text ++ 'T' :: t.timeText ++ zone

def text (t : Timestamp) : List Char := t.textWith ['Z']

def offsetText (t : Timestamp) : List Char := t.textWith ['+', '0', '0', ':', '0', '0']

end Timestamp

end EventHub.Time
