import EventHub.Proofs.Json.Doubles
import EventHub.Proofs.Numeric.Nearest
/-!
# The text of a double

Every double is written as a numeral: digits around a point, with an exponent or without, so that it
is not taken for an integer. What is read are the digits and the exponent of its shortest decimal,
or of the same decimal with further zeros. No two doubles have the same text.
-/

namespace EventHub.Json

open Numeric Numeric.Double
open Nat (ofDigitChars)

variable {rest rest' : List Char}

def EndsNumber (rest : List Char) : Prop :=
  ∀ c, rest.head? = some c → digit? c = none ∧ c ≠ '.' ∧ isExponentMark c = false

theorem EndsNumber.not_digit (hrest : EndsNumber rest) : startsWithDigit rest = false := by
  cases rest with
  | nil => rfl
  | cons c rest => simp [startsWithDigit, (hrest c rfl).1]

theorem EndsNumber.scanOptionalExponent_eq (hrest : EndsNumber rest) (negative : Bool) (s : Nat)
    (e : Int) : scanOptionalExponent negative s e rest = ofParts negative s e rest := by
  cases rest with
  | nil => rfl
  | cons c rest => simp [scanOptionalExponent, (hrest c rfl).2.2]

theorem scale_neg {s : Nat} (hs : s < limit 64) {e : Int} (he : e < 0) :
    (ofNat s >>= (scale · e)).isSome = true := by
  obtain ⟨f, hf⟩ := Option.isSome_iff_exists.mp (word_isSome hs)
  rw [hf]
  exact scale_isSome_of_neg hs hf he

/-! ## Numerals -/

def exponentText (e : Int) : List Char :=
  'e' :: (if e < 0 then '-' else '+') :: Nat.toDigits 10 e.natAbs

/-- The digits in front of the point and behind it, and the exponent if there is one. -/
structure Numeral where
  whole : List Char
  fraction : List Char
  exponent : Option Int

namespace Numeral

def tailText (a : Numeral) : List Char :=
  (if a.fraction = [] then [] else '.' :: a.fraction) ++ a.exponent.elim [] exponentText

def text (a : Numeral) : List Char := a.whole ++ a.tailText

def decimal (a : Numeral) : Decimal :=
  ⟨ofDigitChars 10 (a.whole ++ a.fraction) 0, a.exponent.getD 0 - a.fraction.length⟩

structure Readable (a : Numeral) : Prop where
  whole : IsWhole a.whole
  fraction : AllDigits a.fraction
  marked : a.fraction = [] → a.exponent.isSome = true
  fits : a.decimal.digits < limit 64
  exponent : ∀ e, a.exponent = some e → e.natAbs < exponentLimit

variable {a b : Numeral}

theorem startsWithDigit_text (ha : a.Readable) (rest : List Char) :
    startsWithDigit (a.text ++ rest) = true := by
  rw [text, List.append_assoc]
  exact startsWithDigit_of_allDigits ha.whole.1 ha.whole.ne_nil _

/-! ## Reading -/

theorem scanExponent_exponentText (negative : Bool) (s : Nat) (e : Int) {n : Int}
    (hn : n.natAbs < exponentLimit) (hrest : EndsNumber rest) :
    scanExponent negative s e ((exponentText n).tail ++ rest) =
      ofParts negative s (e + n) rest := by
  have hvalue := Nat.ofDigitChars_ten_toDigits (n := n.natAbs)
  have hscan := scanExponent_signed negative (decide (n < 0)) s e (allDigits_toDigits n.natAbs)
    Nat.toDigits_ne_nil hrest.not_digit (by rw [hvalue]; exact hn)
  rw [hvalue] at hscan
  simp only [decide_eq_true_eq] at hscan
  rw [exponentText, List.tail_cons, List.cons_append, hscan]
  congr 1
  split <;> omega

theorem scanOptionalExponent_elim (negative : Bool) (s : Nat) (e : Int) {n : Option Int}
    (hn : ∀ m, n = some m → m.natAbs < exponentLimit) (hrest : EndsNumber rest) :
    scanOptionalExponent negative s e (n.elim [] exponentText ++ rest) =
      ofParts negative s (n.getD 0 + e) rest := by
  cases n with
  | none =>
    rw [Option.elim_none, List.nil_append, hrest.scanOptionalExponent_eq, Option.getD_none,
      Int.zero_add]
  | some m =>
    have hscan := scanExponent_exponentText negative s e (hn m rfl) hrest
    rw [Option.elim_some, Option.getD_some, Int.add_comm, ← hscan]
    rfl

theorem startsWithDigit_elim (n : Option Int) (hrest : EndsNumber rest) :
    startsWithDigit (n.elim [] exponentText ++ rest) = false := by
  cases n with
  | none => exact hrest.not_digit
  | some m => rfl

theorem scanNumber_text (ha : a.Readable) (negative : Bool) (hrest : EndsNumber rest) :
    scanNumber negative (a.text ++ rest) =
      ofParts negative a.decimal.digits a.decimal.exponent rest := by
  have hfits := ha.fits
  simp only [decimal, Nat.ofDigitChars_append] at hfits ⊢
  rw [text, List.append_assoc, tailText]
  have hwhole : ofDigitChars 10 a.whole 0 < limit 64 :=
    Nat.lt_of_le_of_lt (le_ofDigitChars a.fraction _) hfits
  by_cases hnil : a.fraction = []
  · obtain ⟨m, hm⟩ := Option.isSome_iff_exists.mp (ha.marked hnil)
    have hscan := scanExponent_exponentText negative (ofDigitChars 10 a.whole 0) 0
      (ha.exponent m hm) hrest
    rw [if_pos hnil, List.nil_append, hm, Option.elim_some,
      scanNumber_whole negative ha.whole hwhole (by rfl), hnil, Nat.ofDigitChars_nil]
    have hmark : (exponentText m ++ rest).head?.any isExponentMark = true := rfl
    unfold scanTail
    split
    · next heq => simp [exponentText] at heq
    · rw [if_pos hmark]
      refine Eq.trans hscan ?_
      simp
  · rw [if_neg hnil, List.cons_append, List.cons_append, List.append_assoc,
      scanNumber_whole negative ha.whole hwhole (by rfl), scanTail,
      scanFraction_digits negative _ 0 ha.fraction hnil (startsWithDigit_elim _ hrest) hfits,
      scanOptionalExponent_elim negative _ _ ha.exponent hrest]
    congr 1
    omega

/-! ## The numeral in a text -/

/-- Digits end where a text begins that does not begin with one. -/
theorem digits_append_inj {ds es : List Char} (hds : AllDigits ds) (hes : AllDigits es)
    (hrest : startsWithDigit rest = false) (hrest' : startsWithDigit rest' = false)
    (heq : ds ++ rest = es ++ rest') : ds = es ∧ rest = rest' := by
  induction ds generalizing es with
  | nil =>
    cases es with
    | nil => exact ⟨rfl, heq⟩
    | cons e es =>
      have hdigit := startsWithDigit_of_allDigits hes (by simp) rest'
      rw [← heq, List.nil_append, hrest] at hdigit
      cases hdigit
  | cons d ds ih =>
    cases es with
    | nil =>
      have hdigit := startsWithDigit_of_allDigits hds (by simp) rest
      rw [heq, List.nil_append, hrest'] at hdigit
      cases hdigit
    | cons e es =>
      rw [List.cons_append, List.cons_append, List.cons.injEq] at heq
      obtain ⟨rfl, hrests⟩ := ih (allDigits_cons.mp hds).2 (allDigits_cons.mp hes).2 heq.2
      exact ⟨by rw [heq.1], hrests⟩

theorem elim_append_inj {m n : Option Int} (hrest : EndsNumber rest) (hrest' : EndsNumber rest')
    (heq : m.elim [] exponentText ++ rest = n.elim [] exponentText ++ rest') :
    m = n ∧ rest = rest' := by
  have hmark {r : List Char} {e : Int} {t : List Char} (hr : EndsNumber r) :
      r ≠ exponentText e ++ t := by
    rintro rfl
    exact absurd (hr 'e' rfl).2.2 (by decide)
  cases m with
  | none =>
    cases n with
    | none => exact ⟨rfl, heq⟩
    | some n => exact absurd heq (hmark hrest)
  | some m =>
    cases n with
    | none => exact absurd heq.symm (hmark hrest')
    | some n =>
      simp only [Option.elim_some, exponentText, List.cons_append, List.cons.injEq, true_and]
        at heq
      obtain ⟨hsign, hdigits⟩ := heq
      obtain ⟨hnat, hrests⟩ := digits_append_inj (allDigits_toDigits _) (allDigits_toDigits _)
        hrest.not_digit hrest'.not_digit hdigits
      have habs : m.natAbs = n.natAbs := by
        rw [← Nat.ofDigitChars_ten_toDigits (n := m.natAbs), hnat, Nat.ofDigitChars_ten_toDigits]
      refine ⟨?_, hrests⟩
      congr 1
      split at hsign <;> split at hsign <;> simp at hsign <;> omega

theorem tailText_append_inj (ha : a.Readable) (hb : b.Readable) (hrest : EndsNumber rest)
    (hrest' : EndsNumber rest') (heq : a.tailText ++ rest = b.tailText ++ rest') :
    a.fraction = b.fraction ∧ a.exponent = b.exponent ∧ rest = rest' := by
  have hmark {n : Option Int} {r t : List Char} (hn : n.isSome = true) :
      '.' :: t ≠ n.elim [] exponentText ++ r := by
    obtain ⟨m, rfl⟩ := Option.isSome_iff_exists.mp hn
    simp [exponentText]
  rw [tailText, tailText] at heq
  by_cases hnil : a.fraction = []
  · by_cases hnil' : b.fraction = []
    · rw [if_pos hnil, if_pos hnil', List.nil_append, List.nil_append] at heq
      exact ⟨hnil.trans hnil'.symm, elim_append_inj hrest hrest' heq⟩
    · rw [if_pos hnil, if_neg hnil', List.nil_append, List.cons_append, List.cons_append] at heq
      exact absurd heq.symm (hmark (ha.marked hnil))
  · by_cases hnil' : b.fraction = []
    · rw [if_neg hnil, if_pos hnil', List.nil_append, List.cons_append, List.cons_append] at heq
      exact absurd heq (hmark (hb.marked hnil'))
    · rw [if_neg hnil, if_neg hnil', List.cons_append, List.cons_append, List.cons_append,
        List.cons_append, List.append_assoc, List.append_assoc, List.cons.injEq] at heq
      obtain ⟨hfraction, hexponents⟩ := digits_append_inj ha.fraction hb.fraction
        (startsWithDigit_elim _ hrest) (startsWithDigit_elim _ hrest') heq.2
      exact ⟨hfraction, elim_append_inj hrest hrest' hexponents⟩

theorem startsWithDigit_tailText (a : Numeral) (hrest : EndsNumber rest) :
    startsWithDigit (a.tailText ++ rest) = false := by
  rw [tailText, List.append_assoc]
  by_cases hnil : a.fraction = []
  · rw [if_pos hnil, List.nil_append]
    exact startsWithDigit_elim _ hrest
  · rw [if_neg hnil]
    rfl

theorem text_append_inj (ha : a.Readable) (hb : b.Readable) (hrest : EndsNumber rest)
    (hrest' : EndsNumber rest') (heq : a.text ++ rest = b.text ++ rest') :
    a = b ∧ rest = rest' := by
  rw [text, text, List.append_assoc, List.append_assoc] at heq
  obtain ⟨hwhole, htails⟩ := digits_append_inj ha.whole.1 hb.whole.1
    (startsWithDigit_tailText a hrest) (startsWithDigit_tailText b hrest') heq
  obtain ⟨hfraction, hexponent, hrests⟩ := tailText_append_inj ha hb hrest hrest' htails
  obtain ⟨w, f, e⟩ := a
  simp only at hwhole hfraction hexponent
  subst hwhole hfraction hexponent
  exact ⟨rfl, hrests⟩

end Numeral

/-! ## Positional numerals -/

/-- The decimal around a point, a whole number with a single zero behind it. -/
def positionalNumeral (x : Decimal) : Numeral :=
  ⟨x.positional.1, if x.positional.2 = [] then ['0'] else x.positional.2, none⟩

structure Spells (x : Decimal) (a : Numeral) : Prop where
  readable : a.Readable
  value : a.decimal.value = x.value
  digits : 0 < a.decimal.digits
  scales : (ofNat a.decimal.digits >>= (scale · a.decimal.exponent)).isSome = true

theorem spells_point {x : Decimal} {whole fraction : List Char} (hwhole : IsWhole whole)
    (hfraction : AllDigits fraction) (hne : fraction ≠ []) (k : Nat)
    (hdigits : ofDigitChars 10 (whole ++ fraction) 0 = x.digits * 10 ^ k)
    (hexponent : (k : ℤ) - fraction.length = x.exponent) (hpos : 0 < x.digits)
    (hfits : x.digits * 10 ^ k < limit 64) : Spells x ⟨whole, fraction, none⟩ := by
  have hlength : 0 < fraction.length := List.length_pos_iff.mpr hne
  refine ⟨⟨hwhole, hfraction, fun hnil => absurd hnil hne, ?_, fun e he => (by cases he)⟩,
    ?_, ?_, ?_⟩
  · simp only [Numeral.decimal]
    rwa [hdigits]
  · simp only [Numeral.decimal, Decimal.value, hdigits, Option.getD_none]
    push_cast
    rw [mul_assoc, ← zpow_natCast, ← zpow_add₀ (by norm_num), ← hexponent]
    congr 2
    ring
  · simp only [Numeral.decimal, hdigits]
    exact Nat.mul_pos hpos (Nat.pow_pos (by omega))
  · simp only [Numeral.decimal, Option.getD_none]
    exact scale_neg (by rwa [hdigits]) (by omega)

/-- Zeros behind the digits; the fraction is a single zero. -/
theorem spells_whole {n k : Nat} (hpos : 0 < n)
    (hlength : (Nat.toDigits 10 n).length + k ≤ 16) :
    Spells ⟨n, k⟩ ⟨Nat.toDigits 10 n ++ zeros k, ['0'], none⟩ := by
  have hbound : n < 10 ^ (Nat.toDigits 10 n).length :=
    (Nat.length_toDigits_le_iff (by omega) Nat.length_toDigits_pos).mp (Nat.le_refl _)
  have hlt : n * 10 ^ k < 10 ^ 16 := by
    calc n * 10 ^ k < 10 ^ (Nat.toDigits 10 n).length * 10 ^ k :=
          Nat.mul_lt_mul_of_pos_right hbound (Nat.pow_pos (by omega))
      _ = 10 ^ ((Nat.toDigits 10 n).length + k) := (Nat.pow_add ..).symm
      _ ≤ 10 ^ 16 := Nat.pow_le_pow_right (by omega) hlength
  have hzeros : ['0'] = List.replicate 1 '0' := rfl
  have hlimit : 10 * 10 ^ 16 < limit 64 := by decide
  refine spells_point (isWhole_append hpos (allDigits_replicate _)) (allDigits_replicate 1)
    (by simp) (k + 1) ?_ (by simp) hpos ?_
  · rw [Nat.ofDigitChars_append, Nat.ofDigitChars_append, Nat.ofDigitChars_ten_toDigits, zeros,
      Nat.ofDigitChars_replicate_zero, hzeros, Nat.ofDigitChars_replicate_zero]
    ring
  · rw [Nat.pow_succ, ← Nat.mul_assoc]
    simp only
    omega

/-- The point among the digits. -/
theorem spells_inside {n k : Nat} (hpos : 0 < n) (hword : n < limit 64) (hk : 0 < k)
    (hlt : k < (Nat.toDigits 10 n).length) :
    (Nat.toDigits 10 n).drop ((Nat.toDigits 10 n).length - k) ≠ [] ∧
      Spells ⟨n, -k⟩ ⟨(Nat.toDigits 10 n).take ((Nat.toDigits 10 n).length - k),
        (Nat.toDigits 10 n).drop ((Nat.toDigits 10 n).length - k), none⟩ := by
  have hall := allDigits_toDigits n
  obtain ⟨c, cs, hds, hc⟩ := toDigits_head hpos
  have hne : (Nat.toDigits 10 n).drop ((Nat.toDigits 10 n).length - k) ≠ [] := by
    rw [ne_eq, List.drop_eq_nil_iff]
    omega
  refine ⟨hne,
    spells_point ?_ (fun d hd => hall d (List.mem_of_mem_drop hd)) hne 0 ?_ ?_ hpos ?_⟩
  · obtain ⟨m, hm⟩ : ∃ m, (Nat.toDigits 10 n).length - k = m + 1 :=
      Nat.exists_eq_add_one.mpr (by omega)
    refine ⟨fun d hd => hall d (List.mem_of_mem_take hd), Or.inr ⟨c, cs.take m, ?_, hc⟩⟩
    rw [hm, hds, List.take_succ_cons]
  · rw [List.take_append_drop, Nat.ofDigitChars_ten_toDigits, pow_zero, Nat.mul_one]
  · rw [List.length_drop]
    simp only
    omega
  · simpa using hword

/-- The point in front of the digits, and zeros between them. -/
theorem spells_below {n : Nat} (hpos : 0 < n) (hword : n < limit 64) (k : Nat) :
    zeros k ++ Nat.toDigits 10 n ≠ [] ∧
      Spells ⟨n, -(k + (Nat.toDigits 10 n).length : ℕ)⟩
        ⟨['0'], zeros k ++ Nat.toDigits 10 n, none⟩ := by
  have hne : zeros k ++ Nat.toDigits 10 n ≠ [] := by
    obtain ⟨c, cs, hds, _⟩ := toDigits_head hpos
    simp [hds]
  refine ⟨hne, spells_point isWhole_zero
    (allDigits_append.mpr ⟨allDigits_replicate _, allDigits_toDigits n⟩) hne 0 ?_ ?_ hpos ?_⟩
  · have hzero : ['0'] = List.replicate 1 '0' := rfl
    rw [Nat.ofDigitChars_append, Nat.ofDigitChars_append, hzero, zeros,
      Nat.ofDigitChars_replicate_zero, Nat.ofDigitChars_replicate_zero, mul_zero, mul_zero,
      Nat.ofDigitChars_ten_toDigits, pow_zero, Nat.mul_one]
  · simp [zeros]
  · simpa using hword

theorem spells_positional {x : Decimal} (hpos : 0 < x.digits)
    (hdigits : x.digits ≤ 10 ^ 17) (hleading : x.leading < 16) :
    Spells x (positionalNumeral x) := by
  have hword : x.digits < limit 64 := lt_of_le_of_lt hdigits (by decide)
  obtain ⟨n, e⟩ := x
  simp only at hpos hword
  rw [Decimal.leading] at hleading
  simp only at hleading
  by_cases he : 0 ≤ e
  · obtain ⟨k, rfl⟩ := Int.eq_ofNat_of_zero_le he
    have hspells := spells_whole (k := k) hpos (by omega)
    simpa only [positionalNumeral, Decimal.positional, if_pos he, if_true, Int.toNat_natCast]
      using hspells
  · by_cases hplaces : (-e).toNat < (Nat.toDigits 10 n).length
    · obtain ⟨hne, hspells⟩ := spells_inside hpos hword (by omega) hplaces
      rw [Int.toNat_of_nonneg (by omega), neg_neg] at hspells
      simpa only [positionalNumeral, Decimal.positional, if_neg he, if_pos hplaces, if_neg hne]
        using hspells
    · obtain ⟨hne, hspells⟩ := spells_below hpos hword
        ((-e).toNat - (Nat.toDigits 10 n).length)
      rw [Nat.sub_add_cancel (by omega), Int.toNat_of_nonneg (by omega), neg_neg] at hspells
      simpa only [positionalNumeral, Decimal.positional, if_neg he, if_neg hplaces, if_neg hne]
        using hspells

/-! ## Scientific numerals -/

def scientificNumeral (x : Decimal) : Numeral :=
  ⟨(Nat.toDigits 10 x.digits).take 1, (Nat.toDigits 10 x.digits).drop 1, some x.leading⟩

theorem scientific_eq (x : Decimal) : x.scientific = (scientificNumeral x).text := by
  unfold Decimal.scientific scientificNumeral Numeral.text Numeral.tailText
  rcases Nat.toDigits 10 x.digits with _ | ⟨c, _ | ⟨d, cs⟩⟩ <;> rfl

theorem spells_scientific {x : Decimal} (hpos : 0 < x.digits) (hdigits : x.digits ≤ 10 ^ 17)
    (hexponent : -1000 ≤ x.exponent ∧ x.exponent ≤ 1000)
    (hscales : 0 ≤ x.exponent → (ofNat x.digits >>= (scale · x.exponent)).isSome = true) :
    Spells x (scientificNumeral x) := by
  have hword : x.digits < limit 64 := lt_of_le_of_lt hdigits (by decide)
  have hleading : x.leading.natAbs < exponentLimit := by
    have hlength : (Nat.toDigits 10 x.digits).length ≤ 18 :=
      (Nat.length_toDigits_le_iff (by omega) (by omega)).mpr (by omega)
    have hlimit : 2000 < exponentLimit := by decide
    unfold Decimal.leading
    omega
  obtain ⟨c, cs, hds, hc⟩ := toDigits_head hpos
  have hall := allDigits_toDigits x.digits
  rw [hds] at hall
  have hdecimal : (scientificNumeral x).decimal = x := by
    have hvalue := Nat.ofDigitChars_ten_toDigits (n := x.digits)
    have hlength : x.leading - ((Nat.toDigits 10 x.digits).drop 1).length = x.exponent := by
      rw [Decimal.leading, hds, List.drop_one, List.tail_cons, List.length_cons]
      push_cast
      ring
    rw [Numeral.decimal, scientificNumeral]
    simp only [List.take_append_drop, hvalue, Option.getD_some, hlength]
  refine ⟨⟨?_, ?_, fun _ => rfl, by rwa [hdecimal], ?_⟩,
    congrArg _ hdecimal, by rwa [hdecimal], ?_⟩
  · simp only [scientificNumeral, hds, List.take_succ_cons, List.take_zero]
    exact ⟨allDigits_cons.mpr ⟨(allDigits_cons.mp hall).1, allDigits_nil⟩,
      Or.inr ⟨c, [], rfl, hc⟩⟩
  · simp only [scientificNumeral, hds, List.drop_one, List.tail_cons]
    exact (allDigits_cons.mp hall).2
  · intro e he
    simp only [scientificNumeral, Option.some.injEq] at he
    exact he ▸ hleading
  · rw [hdecimal]
    rcases lt_or_ge x.exponent 0 with he | he
    · exact scale_neg hword he
    · exact hscales he

/-! ## The whole text -/

def doubleNumeral (d : Double) : Numeral :=
  if d.isZero then ⟨['0'], ['0'], none⟩
  else if -5 ≤ d.shortest.leading && d.shortest.leading < 16 then positionalNumeral d.shortest
  else scientificNumeral d.shortest

theorem decimalText_eq (d : Double) : d.decimalText = sign d ++ (doubleNumeral d).text := by
  rw [decimalText, doubleNumeral]
  by_cases hzero : d.isZero = true
  · rw [if_pos hzero, if_pos hzero]
    rfl
  · rw [if_neg hzero, if_neg hzero]
    -- The shortest decimal would be evaluated if it were not a variable.
    generalize d.shortest = x
    by_cases hleading : (-5 ≤ x.leading && x.leading < 16) = true
    · rw [if_pos hleading, if_pos hleading, positionalNumeral]
      rcases x.positional with ⟨whole, _ | ⟨f, fs⟩⟩ <;>
        simp [Numeral.text, Numeral.tailText]
    · rw [if_neg hleading, if_neg hleading, scientific_eq]

theorem significand_pos {d : Double} (hzero : d.isZero = false) : 0 < d.significand := by
  simp only [isZero, decide_eq_false_iff_not] at hzero
  omega

theorem spells_shortest {d : Double} (hvalid : d.Valid) (hzero : d.isZero = false) :
    Spells d.shortest (doubleNumeral d) := by
  have hpos := significand_pos hzero
  obtain ⟨hdigits, hle, _⟩ := shortest_spec hvalid hpos
  have hscientific := spells_scientific hdigits hle (shortest_exponent hvalid hpos)
    (scale_shortest hvalid hpos)
  rw [doubleNumeral, hzero, if_neg (by simp)]
  generalize d.shortest = x at hdigits hle hscientific
  by_cases hleading : (-5 ≤ x.leading && x.leading < 16) = true
  · rw [if_pos hleading]
    simp only [Bool.and_eq_true, decide_eq_true_eq] at hleading
    exact spells_positional hdigits hle hleading.2
  · rw [if_neg hleading]
    exact hscientific

theorem doubleNumeral_zero {d : Double} (hzero : d.isZero = true) :
    doubleNumeral d = ⟨['0'], ['0'], none⟩ := by
  rw [doubleNumeral, if_pos hzero]

theorem readable_doubleNumeral {d : Double} (hvalid : d.Valid) : (doubleNumeral d).Readable := by
  cases hzero : d.isZero with
  | true =>
    rw [doubleNumeral_zero hzero]
    exact ⟨isWhole_zero, allDigits_replicate 1, fun hnil => (by cases hnil), by decide,
      fun e he => (by cases he)⟩
  | false => exact (spells_shortest hvalid hzero).readable

def rereadDouble (d : Double) : Double :=
  (ofNat (doubleNumeral d).decimal.digits >>= (scale · (doubleNumeral d).decimal.exponent)).elim d
    (signed d.negative)

theorem scanNumber_rereadDouble {d : Double} (hvalid : d.Valid) (hrest : EndsNumber rest) :
    scanNumber d.negative ((doubleNumeral d).text ++ rest) =
      .ok (.double (rereadDouble d), rest) := by
  have hscales : (ofNat (doubleNumeral d).decimal.digits >>=
      (scale · (doubleNumeral d).decimal.exponent)).isSome = true := by
    cases hzero : d.isZero with
    | true =>
      rw [doubleNumeral_zero hzero]
      exact scale_neg (by decide) (by decide)
    | false => exact (spells_shortest hvalid hzero).scales
  obtain ⟨f, hf⟩ := Option.isSome_iff_exists.mp hscales
  rw [Numeral.scanNumber_text (readable_doubleNumeral hvalid) d.negative hrest, ofParts,
    rereadDouble, hf]
  rfl

theorem eq_of_isZero {d d' : Double} (hvalid : d.Valid) (hvalid' : d'.Valid)
    (hzero : d.isZero = true) (hzero' : d'.isZero = true) (hsign : d.negative = d'.negative) :
    d = d' := by
  obtain ⟨negative, m, e⟩ := d
  obtain ⟨negative', m', e'⟩ := d'
  simp only [isZero, decide_eq_true_eq] at hzero hzero'
  simp only at hsign
  have he : e = minExponent := hvalid.normal.resolve_left (by simp [hzero])
  have he' : e' = minExponent := hvalid'.normal.resolve_left (by simp [hzero'])
  rw [hsign, hzero, hzero', he, he']

theorem doubleNumeral_inj {d d' : Double} (hvalid : d.Valid) (hvalid' : d'.Valid)
    (hsign : d.negative = d'.negative) (heq : doubleNumeral d = doubleNumeral d') : d = d' := by
  have hdigits {d : Double} (hzero : d.isZero = true) : (doubleNumeral d).decimal.digits = 0 := by
    rw [doubleNumeral_zero hzero]
    rfl
  cases hzero : d.isZero with
  | true =>
    cases hzero' : d'.isZero with
    | true => exact eq_of_isZero hvalid hvalid' hzero hzero' hsign
    | false =>
      have hpos := (spells_shortest hvalid' hzero').digits
      rw [← heq, hdigits hzero] at hpos
      cases hpos
  | false =>
    have hspells := spells_shortest hvalid hzero
    cases hzero' : d'.isZero with
    | true =>
      have hpos := hspells.digits
      rw [heq, hdigits hzero'] at hpos
      cases hpos
    | false =>
      have htakes := takes_shortest hvalid (significand_pos hzero)
      have htakes' := takes_shortest hvalid' (significand_pos hzero')
      rw [← hspells.value, heq] at htakes
      rw [← (spells_shortest hvalid' hzero').value] at htakes'
      exact eq_of_takes hvalid hvalid' (significand_pos hzero) (significand_pos hzero') htakes
        htakes' hsign

theorem decimalText_append_inj {d d' : Double} (hvalid : d.Valid) (hvalid' : d'.Valid)
    (hrest : EndsNumber rest) (hrest' : EndsNumber rest')
    (heq : d.decimalText ++ rest = d'.decimalText ++ rest') : d = d' ∧ rest = rest' := by
  have hreadable := readable_doubleNumeral hvalid
  have hreadable' := readable_doubleNumeral hvalid'
  have hdigit := Numeral.startsWithDigit_text hreadable rest
  have hdigit' := Numeral.startsWithDigit_text hreadable' rest'
  have hminus (text : List Char) : startsWithDigit ('-' :: text) = false := rfl
  rw [decimalText_eq, decimalText_eq, List.append_assoc, List.append_assoc, sign, sign] at heq
  have hsame : d.negative = d'.negative ∧
      (doubleNumeral d).text ++ rest = (doubleNumeral d').text ++ rest' := by
    cases hsign : d.negative <;> cases hsign' : d'.negative <;>
      simp only [hsign, hsign', if_true, Bool.false_eq_true, if_false, List.nil_append,
        List.singleton_append, List.cons.injEq, true_and] at heq
    · exact ⟨rfl, heq⟩
    · rw [heq, hminus] at hdigit
      cases hdigit
    · rw [← heq, hminus] at hdigit'
      cases hdigit'
    · exact ⟨rfl, heq⟩
  obtain ⟨hnumerals, hrests⟩ :=
    Numeral.text_append_inj hreadable hreadable' hrest hrest' hsame.2
  exact ⟨doubleNumeral_inj hvalid hvalid' hsame.1 hnumerals, hrests⟩

/-! ## Numerals that are read exactly -/

/-- Both steps of reading are exact or round once: the digits are a double as they stand, and so is
the power of ten. -/
theorem scale_of_takes {s : Nat} (hpos : 0 < s) (hlt : s < 2 ^ 53) {e : Int} (hlow : -22 ≤ e)
    (hhigh : e ≤ 22) {d : Double} (hvalid : d.Valid) (hd : 0 < d.significand)
    (htakes : d.Takes (s * 10 ^ e)) :
    (ofNat s >>= (scale · e)) = some { d with negative := false } := by
  obtain ⟨f, hf, hsign, hmagnitude⟩ := ofNat_exact hpos hlt
  have hnonzero : f.isZero = false := by
    cases hzero : f.isZero with
    | false => rfl
    | true =>
      simp only [isZero, decide_eq_true_eq] at hzero
      rw [magnitude, hzero, Nat.cast_zero, zero_mul] at hmagnitude
      have : s = 0 := by exact_mod_cast hmagnitude.symm
      omega
  rw [hf, Option.bind_eq_bind, Option.bind_some, scale, hnonzero, if_neg (by simp),
    if_neg (by omega)]
  rcases lt_or_ge e 0 with he | he
  · obtain ⟨k, hk⟩ : ∃ k : ℕ, k = (-e).toNat := ⟨_, rfl⟩
    obtain ⟨t, ht, htsign, htmagnitude⟩ := tenPow_exact (k := k) (by omega)
    obtain ⟨t308, h308⟩ :=
      Option.isSome_iff_exists.mp (tenPow_isSome (k := 308) (Nat.le_refl _))
    have hsteps : (k - 1) / 308 = 0 := Nat.div_eq_of_lt (by omega)
    have hquotient : (s : ℚ) * 10 ^ e = f.magnitude / t.magnitude := by
      rw [hmagnitude, htmagnitude, show e = -(k : ℤ) by omega, zpow_neg, zpow_natCast,
        div_eq_mul_inv]
    rw [hquotient] at htakes
    rw [if_neg (by omega), ← hk]
    simp only [hsteps, Nat.mul_zero, Nat.sub_zero, shrink, hnonzero, h308, ht,
      Option.bind_eq_bind, Option.bind_some, Bool.false_eq_true, if_false]
    rw [div_of_takes hvalid hd (by rw [htmagnitude]; positivity) htakes, hsign, htsign]
    rfl
  · obtain ⟨k, rfl⟩ := Int.eq_ofNat_of_zero_le he
    obtain ⟨t, ht, htsign, htmagnitude⟩ := tenPow_exact (k := k) (by omega)
    rw [if_pos he, Int.toNat_natCast, ht, Option.bind_eq_bind, Option.bind_some]
    rw [zpow_natCast, ← hmagnitude, ← htmagnitude] at htakes
    rw [mul_of_takes hvalid hd htakes, hsign, htsign]
    rfl

theorem rereadDouble_eq_self {d : Double} (hvalid : d.Valid)
    (hdigits : (doubleNumeral d).decimal.digits < 2 ^ 53)
    (hlow : -22 ≤ (doubleNumeral d).decimal.exponent)
    (hhigh : (doubleNumeral d).decimal.exponent ≤ 22) : rereadDouble d = d := by
  cases hzero : d.isZero with
  | true =>
    have hscale : (ofNat (doubleNumeral d).decimal.digits >>=
        (scale · (doubleNumeral d).decimal.exponent)) = some (zero false) := by
      rw [doubleNumeral_zero hzero]
      rfl
    rw [rereadDouble, hscale, Option.elim_some]
    refine eq_of_isZero ?_ hvalid ?_ hzero ?_
    · cases d.negative
      · exact valid_zero false
      · exact valid_zero true
    · cases d.negative <;> rfl
    · cases d.negative <;> rfl
  | false =>
    have hspells := spells_shortest hvalid hzero
    have hpos := significand_pos hzero
    have htakes := takes_shortest hvalid hpos
    rw [← hspells.value, Decimal.value] at htakes
    rw [rereadDouble, scale_of_takes hspells.digits hdigits hlow hhigh hvalid hpos htakes,
      Option.elim_some, signed]
    obtain ⟨_ | _, m, e⟩ := d <;> rfl

end EventHub.Json
