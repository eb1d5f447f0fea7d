import EventHub.Json.Record
import EventHub.Json.Writer
/-!
# Reading back strings

What stands between the quotes of a string are characters as they are and escapes. Each of them is
read for itself, so what is written for a string is read back as that string, whatever stands behind
it.
-/

namespace EventHub.Json

/-- The text between quotes stands for the characters: an escaped surrogate comes in a pair. -/
inductive Denotes : List Char → List Char → Prop where
  | nil : Denotes [] []
  | char {c : Char} {body cs : List Char} (hquote : c ≠ '"') (hbackslash : c ≠ '\\')
      (hcontrol : ¬ c < ' ') (hbody : Denotes body cs) : Denotes (c :: body) (c :: cs)
  | letter {e c : Char} {body cs : List Char} (hletter : unescape? e = some c)
      (hbody : Denotes body cs) : Denotes ('\\' :: e :: body) (c :: cs)
  | word {a b c d : Char} {n : Nat} {body cs : List Char} (hword : hexWord? a b c d = some n)
      (hlow : isLowSurrogate n = false) (hhigh : isHighSurrogate n = false)
      (hbody : Denotes body cs) :
      Denotes ('\\' :: 'u' :: a :: b :: c :: d :: body) (Char.ofNat n :: cs)
  | pair {a b c d e f g h : Char} {high low : Nat} {body cs : List Char}
      (hword : hexWord? a b c d = some high) (hhigh : isHighSurrogate high = true)
      (hword' : hexWord? e f g h = some low) (hlow : isLowSurrogate low = true)
      (hbody : Denotes body cs) :
      Denotes ('\\' :: 'u' :: a :: b :: c :: d :: '\\' :: 'u' :: e :: f :: g :: h :: body)
        (joinSurrogates high low :: cs)

/-! ## Reading -/

theorem isLowSurrogate_of_high {n : Nat} (hhigh : isHighSurrogate n = true) :
    isLowSurrogate n = false := by
  simp only [isHighSurrogate, Bool.and_eq_true, decide_eq_true_eq] at hhigh
  simp only [isLowSurrogate, Bool.and_eq_false_iff, decide_eq_false_iff_not]
  omega

theorem scanString_char {c : Char} (hquote : c ≠ '"') (hbackslash : c ≠ '\\')
    (hcontrol : ¬ c < ' ') (text : List Char) :
    scanString (c :: text) = consChar c (scanString text) := by
  rw [scanString]
  · rw [if_neg hcontrol]
  all_goals simp_all

theorem scanString_letter {e c : Char} (hletter : unescape? e = some c) (text : List Char) :
    scanString ('\\' :: e :: text) = consChar c (scanString text) := by
  rw [scanString]
  · rw [hletter]
  · rintro _ _ _ _ _ rfl
    simp [unescape?] at hletter

theorem Denotes.scanString_eq {body cs : List Char} (hbody : Denotes body cs) (rest : List Char) :
    scanString (body ++ '"' :: rest) = .ok (cs, rest) := by
  induction hbody with
  | nil => rw [List.nil_append, scanString]
  | char hquote hbackslash hcontrol _ ih =>
    rw [List.cons_append, scanString_char hquote hbackslash hcontrol, ih]
    rfl
  | letter hletter _ ih =>
    rw [List.cons_append, List.cons_append, scanString_letter hletter, ih]
    rfl
  | word hword hlow hhigh _ ih =>
    simp only [List.cons_append]
    rw [scanString, hword]
    simp only [hlow, hhigh, Bool.false_eq_true, if_false, ih]
    rfl
  | pair hword hhigh hword' hlow _ ih =>
    simp only [List.cons_append]
    rw [scanString, hword]
    simp only [isLowSurrogate_of_high hhigh, hhigh, hword', hlow, Bool.false_eq_true, if_false,
      if_true, ih]
    rfl

/-! ## Writing -/

/-- The two last digits of a control character's escape are read as its code. -/
theorem hexWord_control : ∀ n < 32,
    hexWord? '0' '0' (hexDigit (n / 16)) (hexDigit (n % 16)) = some n := by
  decide

theorem denotes_escapeChar (c : Char) {body cs : List Char} (hbody : Denotes body cs) :
    Denotes (escapeChar c ++ body) (c :: cs) := by
  unfold escapeChar
  split
  case h_8 hquote hbackslash hbackspace hfeed hnewline hreturn htab =>
    by_cases hcontrol : c < ' '
    · have hlt : c.toNat < 32 := hcontrol
      have hlow : isLowSurrogate c.toNat = false := by
        simp only [isLowSurrogate, Bool.and_eq_false_iff, decide_eq_false_iff_not]
        omega
      have hhigh : isHighSurrogate c.toNat = false := by
        simp only [isHighSurrogate, Bool.and_eq_false_iff, decide_eq_false_iff_not]
        omega
      have hdenotes := Denotes.word (hexWord_control c.toNat hlt) hlow hhigh hbody
      rw [if_pos hcontrol]
      rwa [Char.ofNat_toNat] at hdenotes
    · rw [if_neg hcontrol]
      exact .char hquote hbackslash hcontrol hbody
  all_goals exact .letter rfl hbody

theorem denotes_flatMap (cs : List Char) : Denotes (cs.flatMap escapeChar) cs := by
  induction cs with
  | nil => exact .nil
  | cons c cs ih =>
    rw [List.flatMap_cons]
    exact denotes_escapeChar c ih

theorem scanString_flatMap (cs rest : List Char) :
    scanString (cs.flatMap escapeChar ++ '"' :: rest) = .ok (cs, rest) :=
  (denotes_flatMap cs).scanString_eq rest

end EventHub.Json
