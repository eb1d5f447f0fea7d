/-!
# Calendar dates

Dates of the Gregorian calendar, extended to all years. A date always exists: its month and day are
within the calendar.
-/

namespace EventHub.Time

def isLeapYear (year : Int) : Bool :=
  year % 4 = 0 && (year % 100 ≠ 0 || year % 400 = 0)

def daysInMonth (year : Int) (month : Nat) : Nat :=
  match month with
  | 2 => if isLeapYear year then 29 else 28
  | 4 | 6 | 9 | 11 => 30
  | 1 | 3 | 5 | 7 | 8 | 10 | 12 => 31
  | _ => 0

@[ext] structure Date where
  year : Int
  month : Nat
  day : Nat
  day_pos : 0 < day
  day_le : day ≤ daysInMonth year month
deriving DecidableEq, Repr

namespace Date

def minYear : Int := -262143

def maxYear : Int := 262142

def ofParts? (year : Int) (month day : Nat) : Option Date :=
  if h : 0 < day ∧ day ≤ daysInMonth year month then
    if minYear ≤ year && year ≤ maxYear then some ⟨year, month, day, h.1, h.2⟩ else none
  else none

def next? (d : Date) : Option Date :=
  if d.day < daysInMonth d.year d.month then ofParts? d.year d.month (d.day + 1)
  else if d.month < 12 then ofParts? d.year (d.month + 1) 1
  else ofParts? (d.year + 1) 1 1

def previous? (d : Date) : Option Date :=
  if 1 < d.day then ofParts? d.year d.month (d.day - 1)
  else if 1 < d.month then ofParts? d.year (d.month - 1) (daysInMonth d.year (d.month - 1))
  else ofParts? (d.year - 1) 12 31

end Date

end EventHub.Time
