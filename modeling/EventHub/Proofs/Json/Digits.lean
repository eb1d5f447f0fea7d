import EventHub.Json.Scan
import EventHub.Text.Digits
/-!
# Scanning digits

Digits are scanned to the number they stand for as long as it fits sixty-four bits. From this comes
what the scanners make of a whole part, a fraction and an exponent.
-/

namespace EventHub.Json

open Nat (ofDigitChars)

variable {ds rest : List Char}

def AllDigits (ds : List Char) : Prop := ∀ c ∈ ds, c.isDigit = true

theorem allDigits_nil : AllDigits [] := by
  intro c hc
  simp at hc

theorem allDigits_cons {c : Char} : AllDigits (c :: ds) ↔ c.isDigit = true ∧ AllDigits ds := by
  simp [AllDigits]

theorem allDigits_append {es : List Char} :
    AllDigits (ds ++ es) ↔ AllDigits ds ∧ AllDigits es := by
  simp [AllDigits, or_imp, forall_and]

theorem allDigits_replicate (n : Nat) : AllDigits (List.replicate n '0') := by
  intro c hc
  rw [(List.mem_replicate.mp hc).2]
  rfl

theorem allDigits_toDigits (n : Nat) : AllDigits (Nat.toDigits 10 n) :=
  fun _ hc => Nat.isDigit_of_mem_toDigits (by omega) (by omega) hc

theorem digit_of_isDigit {c : Char} (hc : c.isDigit = true) :
    digit? c = some (c.toNat - '0'.toNat) := by
  simp only [Char.isDigit, Bool.and_eq_true, decide_eq_true_eq] at hc
  have hlow : '0' ≤ c := hc.1
  have hhigh : c ≤ '9' := hc.2
  simp [digit?, hlow, hhigh]

theorem startsWithDigit_of_allDigits (hds : AllDigits ds) (hne : ds ≠ []) (rest : List Char) :
    startsWithDigit (ds ++ rest) = true := by
  obtain ⟨c, ds, rfl⟩ := List.exists_cons_of_ne_nil hne
  simp [startsWithDigit, digit_of_isDigit (allDigits_cons.mp hds).1]

theorem ofDigitChars_cons_ten (c : Char) (ds : List Char) (s : Nat) :
    ofDigitChars 10 (c :: ds) s = ofDigitChars 10 ds (s * 10 + (c.toNat - '0'.toNat)) := by
  rw [Nat.ofDigitChars_cons, Nat.mul_comm]

theorem foldl_digits {step : Option Nat → Char → Option Nat}
    (hstep : ∀ n c, c.isDigit = true → step (some n) c = some (n * 10 + (c.toNat - '0'.toNat)))
    {digits : List Char} (hdigits : AllDigits digits) (s : Nat) :
    digits.foldl step (some s) = some (ofDigitChars 10 digits s) := by
  induction digits generalizing s with
  | nil => rw [List.foldl_nil, Nat.ofDigitChars_nil]
  | cons c digits ih =>
    obtain ⟨hc, hdigits⟩ := allDigits_cons.mp hdigits
    rw [List.foldl_cons, hstep s c hc, ih hdigits, ofDigitChars_cons_ten]

theorem digitsValue?_toDigits (n : Nat) : Text.digitsValue? (Nat.toDigits 10 n) = some n := by
  rw [Text.digitsValue?, if_neg (by simp), foldl_digits _ (allDigits_toDigits n),
    Nat.ofDigitChars_toDigits (by omega) (by omega)]
  intro n c hc
  simp only [Char.isDigit, Bool.and_eq_true, decide_eq_true_eq] at hc
  have hlow : '0' ≤ c := hc.1
  have hhigh : c ≤ '9' := hc.2
  simp [hlow, hhigh]

theorem le_ofDigitChars (ds : List Char) (s : Nat) : s ≤ ofDigitChars 10 ds s := by
  induction ds generalizing s with
  | nil => exact Nat.le_of_eq Nat.ofDigitChars_nil.symm
  | cons c ds ih =>
    rw [ofDigitChars_cons_ten]
    have := ih (s * 10 + (c.toNat - '0'.toNat))
    omega

theorem takeDigits_of_not_digit (s count : Nat) (hrest : startsWithDigit rest = false) :
    takeDigits s count rest = (s, count, rest) := by
  cases rest with
  | nil => rfl
  | cons c rest =>
    have hc : digit? c = none := by simpa [startsWithDigit] using hrest
    simp [takeDigits, hc]

theorem takeDigits_append (hds : AllDigits ds) (s count : Nat)
    (hrest : startsWithDigit rest = false)
    (hfits : ofDigitChars 10 ds s < Numeric.limit 64) :
    takeDigits s count (ds ++ rest) = (ofDigitChars 10 ds s, count + ds.length, rest) := by
  induction ds generalizing s count with
  | nil => rw [List.nil_append, takeDigits_of_not_digit s count hrest, Nat.ofDigitChars_nil]; rfl
  | cons c ds ih =>
    obtain ⟨hc, hds⟩ := allDigits_cons.mp hds
    rw [ofDigitChars_cons_ten] at hfits ⊢
    have hnext : s * 10 + (c.toNat - '0'.toNat) < Numeric.limit 64 :=
      Nat.lt_of_le_of_lt (le_ofDigitChars ds _) hfits
    rw [List.cons_append, takeDigits, digit_of_isDigit hc]
    simp only [hnext, if_true]
    rw [ih hds _ _ hfits, List.length_cons]
    congr 2
    omega

/-! ## Parts of a number -/

/-- No number begins with a zero, unless it is the only digit in front of the point. -/
def IsWhole (ds : List Char) : Prop :=
  AllDigits ds ∧ (ds = ['0'] ∨ ∃ c cs, ds = c :: cs ∧ c ≠ '0')

theorem isWhole_zero : IsWhole ['0'] :=
  ⟨allDigits_cons.mpr ⟨rfl, allDigits_nil⟩, Or.inl rfl⟩

theorem IsWhole.ne_nil (hds : IsWhole ds) : ds ≠ [] := by
  rcases hds.2 with rfl | ⟨c, cs, rfl, _⟩ <;> simp

theorem toDigits_head {n : Nat} (hn : 0 < n) :
    ∃ c cs, Nat.toDigits 10 n = c :: cs ∧ c ≠ '0' := by
  induction n using Nat.strongRecOn with
  | ind n ih =>
    rcases Nat.lt_or_ge n 10 with hlt | hge
    · refine ⟨Nat.digitChar n, [], Nat.toDigits_of_lt_base hlt, ?_⟩
      simp only [ne_eq, Nat.digitChar_eq_zero]
      omega
    · obtain ⟨c, cs, hdigits, hc⟩ := ih (n / 10) (by omega) (by omega)
      refine ⟨c, cs ++ [Nat.digitChar (n % 10)], ?_, hc⟩
      rw [Nat.toDigits_of_base_le (by omega) hge, hdigits, List.cons_append]

theorem isWhole_toDigits (n : Nat) : IsWhole (Nat.toDigits 10 n) := by
  refine ⟨allDigits_toDigits n, ?_⟩
  rcases Nat.eq_zero_or_pos n with rfl | hn
  · exact Or.inl (Nat.toDigits_zero 10)
  · exact Or.inr (toDigits_head hn)

theorem isWhole_append {n : Nat} (hn : 0 < n) {es : List Char} (hes : AllDigits es) :
    IsWhole (Nat.toDigits 10 n ++ es) := by
  obtain ⟨c, cs, hdigits, hc⟩ := toDigits_head hn
  refine ⟨allDigits_append.mpr ⟨allDigits_toDigits n, hes⟩,
    Or.inr ⟨c, cs ++ es, ?_, hc⟩⟩
  rw [hdigits, List.cons_append]

theorem scanNumber_whole (negative : Bool) (hds : IsWhole ds)
    (hfits : ofDigitChars 10 ds 0 < Numeric.limit 64) (hrest : startsWithDigit rest = false) :
    scanNumber negative (ds ++ rest) = scanTail negative (ofDigitChars 10 ds 0) rest := by
  obtain ⟨hdigits, rfl | ⟨c, cs, rfl, hc⟩⟩ := hds
  · rw [List.singleton_append, scanNumber, hrest, if_neg (by simp)]
    rfl
  · obtain ⟨hcdigit, hcs⟩ := allDigits_cons.mp hdigits
    rw [ofDigitChars_cons_ten, Nat.zero_mul, Nat.zero_add] at hfits ⊢
    have htake := takeDigits_append hcs (c.toNat - '0'.toNat) 0 hrest hfits
    rw [List.cons_append]
    unfold scanNumber
    split
    · next heq => simp at heq
    · next heq =>
      rw [List.cons.injEq] at heq
      exact absurd heq.1 hc
    · next heq =>
      rw [List.cons.injEq] at heq
      obtain ⟨rfl, rfl⟩ := heq
      simp only [digit_of_isDigit hcdigit, htake, hrest, Bool.false_eq_true, if_false]

theorem scanFraction_digits (negative : Bool) (s : Nat) (e : Int) (hds : AllDigits ds)
    (hne : ds ≠ []) (hrest : startsWithDigit rest = false)
    (hfits : ofDigitChars 10 ds s < Numeric.limit 64) :
    scanFraction negative s e (ds ++ rest) =
      scanOptionalExponent negative (ofDigitChars 10 ds s) (e - ds.length) rest := by
  have hlength : ds.length ≠ 0 := by simpa using hne
  simp only [scanFraction, takeDigits_append hds s 0 hrest hfits, Nat.zero_add, hrest,
    Bool.false_eq_true, if_false, hlength]

theorem takeExponent_append (hds : AllDigits ds) (n : Nat) (hrest : startsWithDigit rest = false)
    (hfits : ofDigitChars 10 ds n < exponentLimit) :
    takeExponent n (ds ++ rest) = (some (ofDigitChars 10 ds n), rest) := by
  induction ds generalizing n with
  | nil =>
    rw [List.nil_append, Nat.ofDigitChars_nil]
    cases rest with
    | nil => rfl
    | cons c rest =>
      have hc : digit? c = none := by simpa [startsWithDigit] using hrest
      simp [takeExponent, hc]
  | cons c ds ih =>
    obtain ⟨hc, hds⟩ := allDigits_cons.mp hds
    rw [ofDigitChars_cons_ten] at hfits ⊢
    have hnext : n * 10 + (c.toNat - '0'.toNat) < exponentLimit :=
      Nat.lt_of_le_of_lt (le_ofDigitChars ds _) hfits
    rw [List.cons_append, takeExponent, digit_of_isDigit hc]
    simp only [hnext, if_true]
    exact ih hds _ hfits

theorem scanExponent_signed (negative down : Bool) (s : Nat) (e : Int) (hds : AllDigits ds)
    (hne : ds ≠ []) (hrest : startsWithDigit rest = false)
    (hfits : ofDigitChars 10 ds 0 < exponentLimit) :
    scanExponent negative s e ((if down then '-' else '+') :: (ds ++ rest)) =
      ofParts negative s
        (if down then e - ofDigitChars 10 ds 0 else e + ofDigitChars 10 ds 0) rest := by
  obtain ⟨c, cs, rfl⟩ := List.exists_cons_of_ne_nil hne
  obtain ⟨hc, hcs⟩ := allDigits_cons.mp hds
  rw [ofDigitChars_cons_ten, Nat.zero_mul, Nat.zero_add] at hfits ⊢
  have htake := takeExponent_append hcs (c.toNat - '0'.toNat) hrest hfits
  cases down <;>
    simp only [scanExponent, List.cons_append, digit_of_isDigit hc, htake, if_true,
      Bool.false_eq_true, if_false]

end EventHub.Json
