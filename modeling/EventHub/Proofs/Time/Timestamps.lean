import EventHub.Proofs.Json.Digits
import EventHub.Time.Timestamp.Reader
import Mathlib.Tactic.Ring
/-!
# Reading back timestamps

The text of a timestamp is read as the same timestamp, leap seconds included, for every year that
the reader takes.
-/

namespace EventHub.Time

open Json (AllDigits allDigits_append allDigits_cons allDigits_replicate allDigits_toDigits
  startsWithDigit)
open Nat (ofDigitChars)

variable {rest : List Char}

/-! ## Padded numbers -/

theorem allDigits_padded (width n : Nat) : AllDigits (padded width n) :=
  allDigits_append.mpr ⟨allDigits_replicate _, allDigits_toDigits n⟩

theorem length_padded {width n : Nat} (hwidth : 0 < width) (hn : n < 10 ^ width) :
    (padded width n).length = width := by
  have hlength : (Nat.toDigits 10 n).length ≤ width :=
    (Nat.length_toDigits_le_iff (by omega) hwidth).mpr hn
  rw [padded, List.length_append, List.length_replicate]
  omega

theorem ofDigitChars_padded (width n : Nat) : ofDigitChars 10 (padded width n) 0 = n := by
  rw [padded, Nat.ofDigitChars_append, Nat.ofDigitChars_replicate_zero, Nat.mul_zero,
    Nat.ofDigitChars_ten_toDigits]

theorem padded_ne_nil (width n : Nat) : padded width n ≠ [] :=
  List.append_ne_nil_of_right_ne_nil _ Nat.toDigits_ne_nil

theorem isBlank_of_isDigit {c : Char} (hc : c.isDigit = true) : Text.isBlank c = false := by
  simp only [Char.isDigit, Bool.and_eq_true, decide_eq_true_eq] at hc
  obtain ⟨hlow, hhigh⟩ := hc
  have hlow : 48 ≤ c.toNat := hlow
  have hhigh : c.toNat ≤ 57 := hhigh
  simp [Text.isBlank, Text.inRanges, Text.blankRanges]
  omega

theorem trimStart_digits {ds : List Char} (hds : AllDigits ds) (hne : ds ≠ []) :
    Text.trimStart (ds ++ rest) = ds ++ rest := by
  obtain ⟨c, cs, rfl⟩ := List.exists_cons_of_ne_nil hne
  rw [Text.trimStart, List.cons_append, List.dropWhile_cons_of_neg]
  simp [isBlank_of_isDigit (allDigits_cons.mp hds).1]

namespace Timestamp.Reader

/-! ## Numbers -/

theorem digit_of_isDigit {c : Char} (hc : c.isDigit = true) :
    digit? c = some (c.toNat - '0'.toNat) :=
  Json.digit_of_isDigit hc

theorem takeNumber_append {ds : List Char} (hds : AllDigits ds) {width : Nat} (n : Nat)
    (hlength : ds.length ≤ width) (hend : ds.length = width ∨ startsWithDigit rest = false)
    (hfits : ofDigitChars 10 ds n < Numeric.limit 63) :
    takeNumber width n (ds ++ rest) = .ok (ofDigitChars 10 ds n, rest) := by
  induction ds generalizing width n with
  | nil =>
    rw [Nat.ofDigitChars_nil, List.nil_append]
    cases width with
    | zero => rw [takeNumber]
    | succ width =>
      rcases hend with hend | hend
      · simp at hend
      · cases rest with
        | nil => rw [takeNumber]; simp
        | cons c rest =>
          have hc : Json.digit? c = none := by simpa [startsWithDigit] using hend
          have hc : digit? c = none := hc
          rw [takeNumber, hc]
  | cons c ds ih =>
    obtain ⟨hc, hds⟩ := allDigits_cons.mp hds
    obtain ⟨width, rfl⟩ := Nat.exists_eq_add_of_lt (show 0 < width by simp at hlength; omega)
    rw [Json.ofDigitChars_cons_ten] at hfits ⊢
    have hnext : n * 10 + (c.toNat - '0'.toNat) < Numeric.limit 63 :=
      Nat.lt_of_le_of_lt (Json.le_ofDigitChars ds _) hfits
    rw [List.cons_append, takeNumber, digit_of_isDigit hc]
    simp only [hnext, if_true]
    refine ih hds _ ?_ ?_ hfits
    · rw [List.length_cons] at hlength
      omega
    · rw [List.length_cons] at hend
      exact hend.imp (fun hwidth => by omega) id

theorem number_append {ds : List Char} (hds : AllDigits ds) (hne : ds ≠ []) {width : Nat}
    (hlength : ds.length ≤ width) (hend : ds.length = width ∨ startsWithDigit rest = false)
    (hfits : ofDigitChars 10 ds 0 < Numeric.limit 63) :
    number width (ds ++ rest) = .ok (ofDigitChars 10 ds 0, rest) := by
  have htake := takeNumber_append hds 0 hlength hend hfits
  obtain ⟨c, cs, rfl⟩ := List.exists_cons_of_ne_nil hne
  rw [List.cons_append] at htake ⊢
  rw [number, digit_of_isDigit (allDigits_cons.mp hds).1, htake]

theorem number_padded {width n : Nat} (hwidth : 0 < width) (hwidth' : width ≤ 18)
    (hn : n < 10 ^ width) : number width (padded width n ++ rest) = .ok (n, rest) := by
  have hlength := length_padded hwidth hn
  have hlimit : 10 ^ 18 < Numeric.limit 63 := by decide
  have hpow : 10 ^ width ≤ 10 ^ 18 := Nat.pow_le_pow_right (by omega) hwidth'
  rw [number_append (allDigits_padded width n) (padded_ne_nil width n) (Nat.le_of_eq hlength)
    (Or.inl hlength) (by rw [ofDigitChars_padded]; omega), ofDigitChars_padded]

theorem boundedNumber_padded {low high n : Nat} (hlow : low ≤ n) (hhigh : n ≤ high)
    (hn : n < 100) : boundedNumber low high (padded 2 n ++ rest) = .ok (n, rest) := by
  rw [boundedNumber, trimStart_digits (allDigits_padded 2 n) (padded_ne_nil 2 n),
    number_padded (by omega) (by omega) hn]
  simp [hlow, hhigh]

theorem separator_mark (mark : Char) (hmark : Text.isBlank mark = false) :
    separator mark (mark :: rest) = .ok rest := by
  rw [separator, Text.trimStart, List.dropWhile_cons_of_neg (by simp [hmark])]
  simp

/-! ## Years and fractions -/

theorem year_signed (negative : Bool) {n : Nat} (hn : n ≤ 262143)
    (hrest : startsWithDigit rest = false) :
    year ((if negative then '-' else '+') :: (padded 4 n ++ rest)) =
      .ok (if negative then -(n : Int) else n, rest) := by
  have hlimit : 262143 < Numeric.limit 31 := by decide
  have hwide : 262143 < Numeric.limit 63 := by decide
  have hread : number (padded 4 n ++ rest).length (padded 4 n ++ rest) = .ok (n, rest) := by
    rw [number_append (allDigits_padded 4 n) (padded_ne_nil 4 n) (by simp) (Or.inr hrest)
      (by rw [ofDigitChars_padded]; omega), ofDigitChars_padded]
  have hn : n < Numeric.limit 31 := by omega
  cases negative with
  | true =>
    rw [if_pos rfl, year, Text.trimStart, List.dropWhile_cons_of_neg (by decide)]
    simp only [hread, hn, decide_true, Bool.true_or, if_true]
  | false =>
    rw [if_neg (by decide), year, Text.trimStart, List.dropWhile_cons_of_neg (by decide)]
    simp only [hread, hn, decide_true, Bool.true_or, if_true]

theorem year_unsigned {n : Nat} (hn : n ≤ 9999) :
    year (padded 4 n ++ rest) = .ok ((n : Int), rest) := by
  have hread : number 4 (padded 4 n ++ rest) = .ok (n, rest) :=
    number_padded (by omega) (by omega) (by omega)
  have htrim : Text.trimStart (padded 4 n ++ rest) = padded 4 n ++ rest :=
    trimStart_digits (allDigits_padded 4 n) (padded_ne_nil 4 n)
  obtain ⟨c, cs, hdigits⟩ := List.exists_cons_of_ne_nil (padded_ne_nil 4 n)
  have hc : c.isDigit = true := allDigits_padded 4 n c (by rw [hdigits]; exact List.mem_cons_self)
  rw [year, htrim]
  rw [hdigits, List.cons_append] at hread ⊢
  split
  · next heq =>
    rw [List.cons.injEq] at heq
    rw [heq.1] at hc
    simp at hc
  · next heq =>
    rw [List.cons.injEq] at heq
    rw [heq.1] at hc
    simp at hc
  · rw [hread]

theorem year_yearText {y : Int} (hlow : Date.minYear ≤ y) (hhigh : y ≤ Date.maxYear) :
    year (yearText y ++ '-' :: rest) = .ok (y, '-' :: rest) := by
  have hmin : Date.minYear = -262143 := rfl
  have hmax : Date.maxYear = 262142 := rfl
  unfold yearText
  by_cases hfour : (0 ≤ y && y ≤ 9999) = true
  · rw [if_pos hfour]
    simp only [Bool.and_eq_true, decide_eq_true_eq] at hfour
    rw [year_unsigned (by omega), Int.toNat_of_nonneg hfour.1]
  · rw [if_neg hfour, List.cons_append]
    have hsmall : y.natAbs ≤ 262143 := by omega
    have hdash : startsWithDigit ('-' :: rest) = false := rfl
    have hsigned := year_signed (decide (y < 0)) hsmall hdash
    simp only [decide_eq_true_eq] at hsigned
    rw [hsigned]
    congr 2
    split <;> omega

theorem fractionDigits_padded {width n : Nat} (hwidth : 0 < width) (hnine : width ≤ 9)
    (hn : n < 10 ^ width) :
    fractionDigits (padded width n ++ 'Z' :: rest) = .ok (n * 10 ^ (9 - width), 'Z' :: rest) := by
  have hlength := length_padded hwidth hn
  have hlimit : 10 ^ 9 < Numeric.limit 63 := by decide
  have hpow : 10 ^ width ≤ 10 ^ 9 := Nat.pow_le_pow_right (by omega) hnine
  have hread : number 9 (padded width n ++ 'Z' :: rest) = .ok (n, 'Z' :: rest) := by
    rw [number_append (allDigits_padded width n) (padded_ne_nil width n) (by omega) (Or.inr rfl)
      (by rw [ofDigitChars_padded]; omega), ofDigitChars_padded]
  rw [fractionDigits, hread]
  simp only [List.length_append, hlength, Nat.add_sub_cancel]
  rfl

theorem fraction_fractionText {nanos : Nat} (hnanos : nanos < 1000000000) :
    fraction (fractionText nanos ++ 'Z' :: rest) = .ok (nanos, 'Z' :: rest) := by
  unfold fractionText
  split
  · next hzero =>
    rw [hzero]
    rfl
  split
  · rw [List.cons_append, fraction, fractionDigits_padded (by omega) (by omega) (by omega)]
    congr 2
    omega
  split
  · rw [List.cons_append, fraction, fractionDigits_padded (by omega) (by omega) (by omega)]
    congr 2
    omega
  · rw [List.cons_append, fraction, fractionDigits_padded (by omega) (by omega) (by omega)]
    congr 2
    omega

end Timestamp.Reader

/-! ## Whole timestamps -/

open Timestamp.Reader

theorem daysInMonth_pos {year : Int} {month : Nat} (hdays : 0 < daysInMonth year month) :
    1 ≤ month ∧ month ≤ 12 := by
  unfold daysInMonth at hdays
  split at hdays <;> omega

theorem daysInMonth_le (year : Int) (month : Nat) : daysInMonth year month ≤ 31 := by
  unfold daysInMonth
  repeat' split
  all_goals omega

theorem Date.ofParts?_self {d : Date} (hlow : minYear ≤ d.year) (hhigh : d.year ≤ maxYear) :
    ofParts? d.year d.month d.day = some d := by
  rw [ofParts?, dif_pos ⟨d.day_pos, d.day_le⟩]
  simp [hlow, hhigh]

theorem Timestamp.ofLocal?_zero (t : Timestamp) : ofLocal? t.date t.second t.nanos 0 = some t := by
  have hsecond := t.second_lt
  have hshifted : (((t.second : Int) - 0) % 86400).toNat = t.second := by omega
  simp only [ofLocal?]
  rw [if_neg (by omega), if_neg (by omega)]
  simp only [hshifted]
  exact dif_pos ⟨t.second_lt, t.nanos_lt, t.leap⟩

/-- A leap second counts as the sixtieth of its minute, and the reader counts it back. -/
theorem Timestamp.leap_eq (t : Timestamp) :
    (if t.secondOfMinute = 60 then (59, t.nanos % 1000000000 + 1000000000)
      else (t.secondOfMinute, t.nanos % 1000000000)) = (t.second % 60, t.nanos) := by
  have hnanos := t.nanos_lt
  rcases Nat.lt_or_ge t.nanos 1000000000 with hlt | hge
  · have hsecond : t.secondOfMinute = t.second % 60 := by
      simp [secondOfMinute, isLeap, hlt]
    rw [hsecond, if_neg (by omega), Nat.mod_eq_of_lt hlt]
  · have hleap := t.leap hge
    have hsecond : t.secondOfMinute = 60 := by
      simp [secondOfMinute, isLeap, hge, hleap]
    rw [if_pos hsecond, hleap]
    congr 1
    omega

theorem Timestamp.read_text {t : Timestamp} (hlow : Date.minYear ≤ t.date.year)
    (hhigh : t.date.year ≤ Date.maxYear) : Timestamp.read t.text = .ok t := by
  have hmonth := daysInMonth_pos (Nat.lt_of_lt_of_le t.date.day_pos t.date.day_le)
  have hday := Nat.le_trans t.date.day_le (daysInMonth_le t.date.year t.date.month)
  have hsecond := t.second_lt
  have hminute : t.secondOfMinute ≤ 60 := by
    unfold secondOfMinute
    split <;> omega
  have htotal : t.second / 3600 * 3600 + t.second / 60 % 60 * 60 + t.second % 60 = t.second := by
    omega
  have hend : ∀ rest, dateEnd ('T' :: rest) = .ok rest := fun _ => rfl
  have hoffset : ∀ rest, offset (Text.trimStart ('Z' :: rest)) = .ok (0, rest) := fun _ => rfl
  unfold Timestamp.read
  simp only [text, textWith, Date.text, timeText, List.append_assoc, List.cons_append,
    year_yearText hlow hhigh, separator_mark '-' rfl, separator_mark ':' rfl,
    boundedNumber_padded hmonth.1 hmonth.2 (by omega),
    boundedNumber_padded t.date.day_pos hday (by omega),
    boundedNumber_padded (Nat.zero_le (t.second / 3600)) (show _ ≤ 23 by omega) (by omega),
    boundedNumber_padded (Nat.zero_le (t.second / 60 % 60)) (show _ ≤ 59 by omega) (by omega),
    boundedNumber_padded (Nat.zero_le t.secondOfMinute) hminute (by omega),
    fraction_fractionText (Nat.mod_lt t.nanos (show 0 < 1000000000 by decide)), hend, hoffset,
    bind, Except.bind]
  rw [if_pos (by rfl), Date.ofParts?_self hlow hhigh, t.leap_eq]
  simp only [htotal, t.ofLocal?_zero]
  rfl

end EventHub.Time
