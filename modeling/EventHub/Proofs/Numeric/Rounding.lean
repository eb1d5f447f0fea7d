import EventHub.Numeric.Double
import Mathlib.Algebra.Order.Field.Basic
import Mathlib.Algebra.Order.Field.Power
import Mathlib.Data.Rat.Cast.Order
import Mathlib.Tactic.FieldSimp
import Mathlib.Tactic.Linarith
import Mathlib.Tactic.NormNum
import Mathlib.Tactic.Positivity
import Mathlib.Tactic.Ring
/-!
# Rounding to doubles

How far the double nearest to a quotient may lie above it, and when there is one: for every quotient
below the midpoint between the greatest double and the power of two behind it.
-/

namespace EventHub.Numeric

/-- A power with an integer exponent, in the two natural exponents with which it is computed. -/
theorem zpow_eq_div (b : ℚ) (e : ℤ) : b ^ e = b ^ e.toNat / b ^ (-e).toNat := by
  rcases Int.le_total 0 e with he | he
  · have hneg : (-e).toNat = 0 := by omega
    rw [hneg, pow_zero, div_one, ← zpow_natCast, Int.toNat_of_nonneg he]
  · have hpos : e.toNat = 0 := by omega
    rw [hpos, pow_zero, one_div, ← zpow_natCast,
      Int.toNat_of_nonneg (by omega), zpow_neg, inv_inv]

/-! ## Rounding a quotient -/

theorem roundHalfEven_eq (num den : Nat) :
    roundHalfEven num den = num / den ∨ roundHalfEven num den = num / den + 1 := by
  unfold roundHalfEven
  grind

theorem abs_roundHalfEven_sub (num : Nat) {den : Nat} (hden : 0 < den) :
    (roundHalfEven num den : ℚ) ≤ num / den + 1 / 2 ∧
      (num : ℚ) / den ≤ roundHalfEven num den + 1 / 2 := by
  have hden' : (0 : ℚ) < den := by exact_mod_cast hden
  have hsplit : (num : ℚ) / den = (num / den : ℕ) + (num % den : ℕ) / (den : ℚ) := by
    have h : (den : ℚ) * (num / den : ℕ) + (num % den : ℕ) = num := by
      exact_mod_cast Nat.div_add_mod num den
    field_simp
    linarith
  have hlt : ((num % den : ℕ) : ℚ) / den < 1 := by
    rw [div_lt_one hden']
    exact_mod_cast Nat.mod_lt num hden
  have hnonneg : (0 : ℚ) ≤ ((num % den : ℕ) : ℚ) / den := by positivity
  have hhalf : 2 * (num % den) < den → ((num % den : ℕ) : ℚ) / den < 1 / 2 := by
    intro h
    rw [div_lt_iff₀ hden']
    have : (2 : ℚ) * (num % den : ℕ) < den := by exact_mod_cast h
    linarith
  have hhalf' : den < 2 * (num % den) → (1 : ℚ) / 2 < ((num % den : ℕ) : ℚ) / den := by
    intro h
    rw [lt_div_iff₀ hden']
    have : (den : ℚ) < 2 * (num % den : ℕ) := by exact_mod_cast h
    linarith
  have htie : ¬ 2 * (num % den) < den → ¬ den < 2 * (num % den) →
      ((num % den : ℕ) : ℚ) / den = 1 / 2 := by
    intro h h'
    rw [div_eq_iff hden'.ne']
    have : (den : ℚ) = 2 * (num % den : ℕ) := by
      have heq : den = 2 * (num % den) := by omega
      exact_mod_cast heq
    linarith
  rw [hsplit]
  unfold roundHalfEven
  simp only
  split
  · next h =>
    have := hhalf h
    constructor <;> linarith
  · next h =>
    split
    · next h' =>
      have := hhalf' h'
      push_cast
      constructor <;> linarith
    · next h' =>
      have := htie h h'
      split
      · constructor <;> linarith
      · push_cast
        constructor <;> linarith

/-! ## The binary order of a quotient -/

theorem floorLog2_spec {num den : Nat} (hnum : 0 < num) (hden : 0 < den) :
    (2 : ℚ) ^ floorLog2 num den ≤ num / den ∧
      (num : ℚ) / den < 2 ^ (floorLog2 num den + 1) := by
  have hden' : (0 : ℚ) < den := by exact_mod_cast hden
  have hnumlow : ((2 : ℚ) ^ (num.log2 : ℤ)) ≤ num := by
    rw [zpow_natCast]
    exact_mod_cast Nat.log2_self_le hnum.ne'
  have hnumhigh : (num : ℚ) < 2 ^ ((num.log2 : ℤ) + 1) := by
    rw [← Nat.cast_add_one, zpow_natCast]
    exact_mod_cast Nat.lt_log2_self
  have hdenlow : ((2 : ℚ) ^ (den.log2 : ℤ)) ≤ den := by
    rw [zpow_natCast]
    exact_mod_cast Nat.log2_self_le hden.ne'
  have hdenhigh : (den : ℚ) < 2 ^ ((den.log2 : ℤ) + 1) := by
    rw [← Nat.cast_add_one, zpow_natCast]
    exact_mod_cast Nat.lt_log2_self
  obtain ⟨l, hl⟩ : ∃ l : ℤ, l = (num.log2 : ℤ) - (den.log2 : ℤ) := ⟨_, rfl⟩
  have hhigh : (num : ℚ) / den < 2 ^ (l + 1) := by
    rw [div_lt_iff₀ hden']
    calc (num : ℚ) < 2 ^ ((num.log2 : ℤ) + 1) := hnumhigh
      _ = 2 ^ (l + 1) * 2 ^ (den.log2 : ℤ) := by
        rw [← zpow_add₀ two_ne_zero, hl]
        congr 1
        ring
      _ ≤ 2 ^ (l + 1) * den := by gcongr
  have hlow : (2 : ℚ) ^ (l - 1) ≤ num / den := by
    rw [le_div_iff₀ hden']
    calc (2 : ℚ) ^ (l - 1) * den ≤ 2 ^ (l - 1) * 2 ^ ((den.log2 : ℤ) + 1) := by gcongr
      _ = 2 ^ (num.log2 : ℤ) := by
        rw [← zpow_add₀ two_ne_zero, hl]
        congr 1
        ring
      _ ≤ num := hnumlow
  have htest : den * Nat.pow 2 l.toNat ≤ num * Nat.pow 2 (-l).toNat ↔
      (2 : ℚ) ^ l ≤ num / den := by
    rw [zpow_eq_div, div_le_div_iff₀ (by positivity) hden', mul_comm (2 ^ l.toNat : ℚ)]
    norm_cast
  unfold floorLog2
  simp only [← hl]
  split
  · next h => exact ⟨htest.mp h, hhigh⟩
  · next h =>
    refine ⟨hlow, ?_⟩
    rw [sub_add_cancel]
    exact lt_of_not_ge fun h' => h (htest.mpr h')

namespace Double

def magnitude (d : Double) : ℚ := d.significand * 2 ^ d.exponent

theorem num_div_den (d : Double) : (d.num : ℚ) / d.den = d.magnitude := by
  rw [magnitude, zpow_eq_div, num, den, Nat.pow_eq, Nat.pow_eq]
  push_cast
  ring

theorem den_pos (d : Double) : 0 < d.den := Nat.two_pow_pos _

theorem magnitude_nonneg (d : Double) : 0 ≤ d.magnitude := by
  unfold magnitude
  positivity

def overflow : ℚ := (2 ^ 54 - 1) * 2 ^ (970 : ℤ)

/-! ## The nearest double -/

/-- The exponent of the double nearest to a quotient, before a carry. -/
def gridOf (num den : Nat) : Int := max (floorLog2 num den - 52) minExponent

theorem grid_quotient (num den : Nat) (e : Int) :
    ((num * Nat.pow 2 (-e).toNat : ℕ) : ℚ) / (den * Nat.pow 2 e.toNat : ℕ) =
      num / den / 2 ^ e := by
  rw [zpow_eq_div, Nat.pow_eq, Nat.pow_eq]
  push_cast
  field_simp

theorem ofRatio_pos {num den : Nat} (hnum : 0 < num) (negative : Bool) :
    ofRatio negative num den =
      let m := roundHalfEven (num * Nat.pow 2 (-gridOf num den).toNat)
        (den * Nat.pow 2 (gridOf num den).toNat)
      if m = limit 53 then
        if maxExponent < gridOf num den + 1 then none
        else some ⟨negative, limit 52, gridOf num den + 1⟩
      else if maxExponent < gridOf num den then none
      else some ⟨negative, m, gridOf num den⟩ := by
  have hgrid : max (floorLog2 num den - 52) minExponent = gridOf num den := rfl
  unfold ofRatio
  rw [if_neg hnum.ne']
  simp only [hgrid]
  split <;> rfl

/-- The significand before a carry is at most half a unit off, and it does not exceed the limit at
which the carry takes place. -/
theorem grid_significand {num den : Nat} (hnum : 0 < num) (hden : 0 < den) :
    let m := roundHalfEven (num * Nat.pow 2 (-gridOf num den).toNat)
      (den * Nat.pow 2 (gridOf num den).toNat)
    (m : ℚ) ≤ num / den / 2 ^ gridOf num den + 1 / 2 ∧
      (num : ℚ) / den / 2 ^ gridOf num den ≤ m + 1 / 2 ∧ m ≤ 2 ^ 53 := by
  have hpos : 0 < den * Nat.pow 2 (gridOf num den).toNat :=
    Nat.mul_pos hden (Nat.two_pow_pos _)
  obtain ⟨hle, hge⟩ := abs_roundHalfEven_sub (num * Nat.pow 2 (-gridOf num den).toNat) hpos
  rw [grid_quotient] at hle hge
  refine ⟨hle, hge, ?_⟩
  have hquotient : (num : ℚ) / den / 2 ^ gridOf num den < 2 ^ 53 := by
    have hgrid : floorLog2 num den + 1 ≤ gridOf num den + 53 := by
      have := Int.le_max_left (floorLog2 num den - 52) minExponent
      unfold gridOf
      omega
    rw [div_lt_iff₀ (by positivity)]
    calc (num : ℚ) / den < 2 ^ (floorLog2 num den + 1) := (floorLog2_spec hnum hden).2
      _ ≤ 2 ^ (gridOf num den + 53) := zpow_le_zpow_right₀ (by norm_num) hgrid
      _ = 2 ^ 53 * 2 ^ gridOf num den := by
        rw [zpow_add₀ two_ne_zero, mul_comm]
        norm_num
  have hlt : (roundHalfEven (num * Nat.pow 2 (-gridOf num den).toNat)
      (den * Nat.pow 2 (gridOf num den).toNat) : ℚ) < 2 ^ 53 + 1 := by
    linarith
  have hnat : roundHalfEven (num * Nat.pow 2 (-gridOf num den).toNat)
      (den * Nat.pow 2 (gridOf num den).toNat) < 2 ^ 53 + 1 := by
    exact_mod_cast hlt
  exact Nat.le_of_lt_succ hnat

theorem ofRatio_isSome (negative : Bool) {num den : Nat} (hden : 0 < den)
    (hlt : (num : ℚ) / den < overflow) : (ofRatio negative num den).isSome = true := by
  rcases Nat.eq_zero_or_pos num with rfl | hnum
  · rfl
  have hlow := (floorLog2_spec hnum hden).1
  obtain ⟨hle, _, hlimit⟩ := grid_significand hnum hden
  have hfloor : floorLog2 num den < 1024 := by
    by_contra hcontra
    have hpow : (2 : ℚ) ^ (1024 : ℤ) ≤ 2 ^ floorLog2 num den :=
      zpow_le_zpow_right₀ (by norm_num) (by omega)
    have hsplit : (2 : ℚ) ^ (1024 : ℤ) = 2 ^ 54 * 2 ^ (970 : ℤ) := by
      rw [show (1024 : ℤ) = (54 : ℕ) + 970 by norm_num, zpow_add₀ two_ne_zero, zpow_natCast]
    have hunit : (0 : ℚ) < 2 ^ (970 : ℤ) := zpow_pos two_pos _
    have hover : overflow < 2 ^ (1024 : ℤ) := by
      rw [hsplit, overflow, sub_mul, one_mul]
      exact sub_lt_self _ hunit
    exact absurd (hpow.trans hlow) (not_le_of_gt (hlt.trans hover))
  have hgrid : gridOf num den ≤ 971 := by
    simp only [gridOf, minExponent]
    omega
  rw [ofRatio_pos hnum]
  simp only
  split
  · next hcarry =>
    rcases Int.lt_or_eq_of_le hgrid with hsmall | heq
    · rw [if_neg (by simp only [maxExponent]; omega)]
      rfl
    · -- At the greatest exponent the quotient is too small for a carry.
      exfalso
      rw [hcarry, heq] at hle
      have hdiv : (num : ℚ) / den / 2 ^ (971 : ℤ) < 2 ^ 53 - 1 / 2 := by
        rw [div_lt_iff₀ (zpow_pos two_pos _), show (971 : ℤ) = 970 + 1 by norm_num,
          zpow_add_one₀ two_ne_zero]
        unfold overflow at hlt
        linarith
      have hlimit53 : ((limit 53 : ℕ) : ℚ) = 2 ^ 53 := by norm_num [limit]
      rw [hlimit53] at hle
      linarith
  · rw [if_neg (by simp only [maxExponent]; omega)]
    rfl

/-- Rounding moves a quotient by at most half a unit in the last place. -/
theorem magnitude_ofRatio {negative : Bool} {num den : Nat} (hden : 0 < den) {d : Double}
    (hd : ofRatio negative num den = some d) :
    d.magnitude ≤ num / den + max ((num : ℚ) / den / 2 ^ 53) (2 ^ (-1075 : ℤ)) ∧
      (num : ℚ) / den ≤ d.magnitude + max ((num : ℚ) / den / 2 ^ 53) (2 ^ (-1075 : ℤ)) := by
  rcases Nat.eq_zero_or_pos num with rfl | hnum
  · rw [ofRatio, if_pos rfl, Option.some.injEq] at hd
    rw [← hd]
    simp only [magnitude, zero, Nat.cast_zero, zero_mul, zero_div, zero_add]
    exact ⟨le_max_of_le_left le_rfl, le_max_of_le_left le_rfl⟩
  obtain ⟨hlow, _⟩ := floorLog2_spec hnum hden
  obtain ⟨hle, hge, _⟩ := grid_significand hnum hden
  obtain ⟨m, hm⟩ : ∃ m, roundHalfEven (num * Nat.pow 2 (-gridOf num den).toNat)
      (den * Nat.pow 2 (gridOf num den).toNat) = m := ⟨_, rfl⟩
  have hmagnitude : d.magnitude = m * (2 : ℚ) ^ gridOf num den := by
    rw [ofRatio_pos hnum] at hd
    simp only [hm] at hd
    split at hd
    · next hcarry =>
      split at hd
      · simp at hd
      · rw [Option.some.injEq] at hd
        rw [← hd, hcarry, magnitude, zpow_add_one₀ two_ne_zero]
        norm_num [limit]
        ring
    · split at hd
      · simp at hd
      · rw [Option.some.injEq] at hd
        rw [← hd, magnitude]
  have hgrid : (2 : ℚ) ^ gridOf num den / 2 ≤
      max ((num : ℚ) / den / 2 ^ 53) (2 ^ (-1075 : ℤ)) := by
    rcases Int.le_total (floorLog2 num den - 52) minExponent with hmin | hmin
    · apply le_max_of_le_right
      rw [gridOf, max_eq_right hmin, minExponent, show (-1074 : ℤ) = -1075 + 1 by norm_num,
        zpow_add_one₀ two_ne_zero, mul_div_cancel_right₀ _ two_ne_zero]
    · apply le_max_of_le_left
      rw [gridOf, max_eq_left hmin, zpow_sub₀ two_ne_zero]
      have : (2 : ℚ) ^ (52 : ℤ) * 2 = 2 ^ 53 := by norm_num
      rw [div_div, this]
      gcongr
  have hunit : (0 : ℚ) < 2 ^ gridOf num den := zpow_pos two_pos _
  rw [hm] at hle hge
  rw [hmagnitude]
  constructor
  · calc _ ≤ ((num : ℚ) / den / 2 ^ gridOf num den + 1 / 2) * 2 ^ gridOf num den := by gcongr
      _ = num / den + 2 ^ gridOf num den / 2 := by field_simp
      _ ≤ _ := by gcongr
  · calc (num : ℚ) / den = num / den / 2 ^ gridOf num den * 2 ^ gridOf num den := by field_simp
      _ ≤ (m + 1 / 2) * 2 ^ gridOf num den := by gcongr
      _ = m * 2 ^ gridOf num den + 2 ^ gridOf num den / 2 := by ring
      _ ≤ _ := by gcongr

/-- A quotient of at least one is moved by a small part of itself only. -/
theorem magnitude_ofRatio_of_one_le {negative : Bool} {num den : Nat} (hden : 0 < den)
    (hone : (1 : ℚ) ≤ num / den) {d : Double} (hd : ofRatio negative num den = some d) :
    d.magnitude ≤ num / den * (1 + 1 / 2 ^ 53) ∧ (num : ℚ) / den / 2 ≤ d.magnitude := by
  obtain ⟨hle, hge⟩ := magnitude_ofRatio hden hd
  have hsmall : max ((num : ℚ) / den / 2 ^ 53) (2 ^ (-1075 : ℤ)) =
      (num : ℚ) / den / 2 ^ 53 := by
    apply max_eq_left
    calc (2 : ℚ) ^ (-1075 : ℤ) ≤ 2 ^ (-53 : ℤ) :=
          zpow_le_zpow_right₀ (by norm_num) (by norm_num)
      _ = 1 / 2 ^ 53 := by norm_num
      _ ≤ num / den / 2 ^ 53 := by gcongr
  rw [hsmall] at hle hge
  constructor
  · linarith
  · linarith

/-! ## Products and quotients -/

theorem mul_isSome {a b : Double} (hlt : a.magnitude * b.magnitude < overflow) :
    (a.mul b).isSome = true := by
  apply ofRatio_isSome _ (Nat.mul_pos a.den_pos b.den_pos)
  rw [Nat.cast_mul, Nat.cast_mul, ← div_mul_div_comm, num_div_den, num_div_den]
  exact hlt

theorem div_quotient (a b : Double) :
    ((a.num * b.den : ℕ) : ℚ) / (a.den * b.num : ℕ) = a.magnitude / b.magnitude := by
  rw [← num_div_den, ← num_div_den, Nat.cast_mul, Nat.cast_mul, div_div_div_eq]

theorem num_pos {d : Double} (hd : 0 < d.magnitude) : 0 < d.num := by
  rw [← num_div_den] at hd
  by_contra hzero
  have hnum : d.num = 0 := by omega
  simp [hnum] at hd

theorem div_isSome {a b : Double} (hb : 0 < b.magnitude)
    (hlt : a.magnitude / b.magnitude < overflow) : (a.div b).isSome = true := by
  apply ofRatio_isSome _ (Nat.mul_pos a.den_pos (num_pos hb))
  rw [div_quotient]
  exact hlt

theorem ofNat_isSome {n : Nat} (hlt : (n : ℚ) < overflow) : (ofNat n).isSome = true := by
  apply ofRatio_isSome _ Nat.one_pos
  rw [Nat.cast_one, div_one]
  exact hlt

theorem magnitude_ofNat {n : Nat} (hn : 0 < n) {d : Double} (hd : ofNat n = some d) :
    d.magnitude ≤ n * (1 + 1 / 2 ^ 53) ∧ (n : ℚ) / 2 ≤ d.magnitude := by
  have hone : (1 : ℚ) ≤ (n : ℚ) / (1 : ℕ) := by
    rw [Nat.cast_one, div_one]
    exact_mod_cast hn
  have hbounds := magnitude_ofRatio_of_one_le Nat.one_pos hone hd
  rwa [Nat.cast_one, div_one] at hbounds

end Double

end EventHub.Numeric
