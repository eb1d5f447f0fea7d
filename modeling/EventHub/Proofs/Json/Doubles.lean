import EventHub.Proofs.Json.Digits
import EventHub.Proofs.Numeric.Shortest
/-!
# Reading back doubles

The text of a double is read as a double again. The quick way of reading may miss the double that
was written, but it never leaves the range: only for the two greatest doubles do the rounding errors
come near the end of the range, and these two are read as they stand.
-/

namespace EventHub.Json

open Numeric Numeric.Double

/-! ## Powers of ten -/

theorem tenPow_bounds {k : Nat} {t : Double} (ht : tenPow k = some t) :
    t.magnitude ≤ 10 ^ k * (1 + 1 / 2 ^ 53) ∧ (10 : ℚ) ^ k / 2 ≤ t.magnitude := by
  have hbounds := magnitude_ofNat (n := 10 ^ k) (Nat.pow_pos (by omega)) ht
  rwa [Nat.cast_pow, Nat.cast_ofNat] at hbounds

theorem ten_pow_lt_overflow : (10 : ℚ) ^ 308 < overflow := by
  have hunit : (0 : ℚ) < 2 ^ (970 : ℤ) := zpow_pos two_pos _
  calc (10 : ℚ) ^ 308 = (10 ^ 28) ^ 11 := by rw [← pow_mul]
    _ ≤ (2 ^ 93 * (101 / 100)) ^ 11 := by
      gcongr
      norm_num
    _ = 2 ^ 53 * (101 / 100) ^ 11 * 2 ^ (970 : ℤ) := by
      rw [mul_pow, ← pow_mul, show 93 * 11 = 53 + 970 by norm_num, pow_add,
        show (970 : ℤ) = ((970 : ℕ) : ℤ) by norm_num, zpow_natCast, mul_right_comm]
    _ < overflow := by
      unfold overflow
      gcongr
      norm_num

theorem tenPow_isSome {k : Nat} (hk : k ≤ 308) : (tenPow k).isSome = true := by
  apply ofNat_isSome (n := 10 ^ k)
  rw [Nat.cast_pow, Nat.cast_ofNat]
  exact lt_of_le_of_lt (pow_le_pow_right₀ (by norm_num) hk) ten_pow_lt_overflow

/-! ## Scaling down -/

/-- No integer of sixty-four bits comes near the end of the range. -/
def wordBound : ℚ := 2 ^ 65

theorem two_mul_wordBound_lt : wordBound * 2 < overflow := by
  have hunit : (2 : ℚ) ^ (53 : ℤ) ≤ 2 ^ (970 : ℤ) :=
    zpow_le_zpow_right₀ (by norm_num) (by norm_num)
  have hword : wordBound * 2 < (2 ^ 54 - 1) * 2 ^ (53 : ℤ) := by norm_num [wordBound]
  exact lt_of_lt_of_le hword (mul_le_mul_of_nonneg_left hunit (by norm_num))

theorem word_isSome {s : Nat} (hs : s < limit 64) : (ofNat s).isSome = true := by
  have hle : (s : ℚ) ≤ 2 ^ 64 := by exact_mod_cast hs.le
  have hover := two_mul_wordBound_lt
  refine ofNat_isSome (lt_of_le_of_lt hle (lt_trans ?_ hover))
  norm_num [wordBound]

theorem magnitude_word {s : Nat} (hs : s < limit 64) {f : Double} (hf : ofNat s = some f) :
    f.magnitude ≤ wordBound := by
  rcases Nat.eq_zero_or_pos s with rfl | hpos
  · rw [ofNat, ofRatio, if_pos rfl, Option.some.injEq] at hf
    rw [← hf]
    norm_num [magnitude, Double.zero, wordBound]
  · have hle : (s : ℚ) ≤ 2 ^ 64 := by exact_mod_cast hs.le
    apply (magnitude_ofNat hpos hf).1.trans
    unfold wordBound
    linarith

theorem div_bounds {f t : Double} (ht : 1 / 2 ≤ t.magnitude) (hf : f.magnitude ≤ wordBound) :
    (f.div t).isSome = true := by
  have hpos : 0 < t.magnitude := by linarith
  refine div_isSome hpos (lt_of_le_of_lt ?_ two_mul_wordBound_lt)
  rw [div_le_iff₀ hpos]
  have : (0 : ℚ) ≤ wordBound := by norm_num [wordBound]
  nlinarith

theorem magnitude_div_le {f t g : Double} (ht : 4 ≤ t.magnitude) (hf : f.magnitude ≤ wordBound)
    (hg : f.div t = some g) : g.magnitude ≤ wordBound := by
  have hpos : 0 < t.magnitude := by linarith
  have hden : 0 < f.den * t.num := Nat.mul_pos f.den_pos (num_pos hpos)
  have hle := (magnitude_ofRatio hden hg).1
  rw [div_quotient] at hle
  have hquotient : f.magnitude / t.magnitude ≤ wordBound / 4 := by
    gcongr
    norm_num [wordBound]
  have hround : max (f.magnitude / t.magnitude / 2 ^ 53) (2 ^ (-1075 : ℤ)) ≤ wordBound / 4 := by
    refine max_le ?_ ?_
    · have hnonneg : 0 ≤ f.magnitude / t.magnitude := div_nonneg f.magnitude_nonneg hpos.le
      linarith
    · calc (2 : ℚ) ^ (-1075 : ℤ) ≤ 2 ^ (0 : ℤ) :=
            zpow_le_zpow_right₀ (by norm_num) (by norm_num)
        _ ≤ wordBound / 4 := by norm_num [wordBound]
  have : (0 : ℚ) ≤ wordBound := by norm_num [wordBound]
  linarith

theorem magnitude_shrink_le {t : Double} (ht : 4 ≤ t.magnitude) (k : Nat) {f : Double}
    (hf : f.magnitude ≤ wordBound) : (shrink t k f).magnitude ≤ wordBound := by
  induction k generalizing f with
  | zero => exact hf
  | succ k ih =>
    unfold shrink
    split
    · exact hf
    · split
      · next g hg => exact ih (magnitude_div_le ht hf hg)
      · exact hf

theorem scale_isSome_of_neg {s : Nat} (hs : s < limit 64) {f : Double} (hf : ofNat s = some f)
    {e : Int} (he : e < 0) : (scale f e).isSome = true := by
  obtain ⟨t308, h308⟩ := Option.isSome_iff_exists.mp (tenPow_isSome (k := 308) (by omega))
  obtain ⟨n, hn⟩ : ∃ n, (-e).toNat = n := ⟨_, rfl⟩
  obtain ⟨t, ht⟩ := Option.isSome_iff_exists.mp
    (tenPow_isSome (k := n - 308 * ((n - 1) / 308)) (by omega))
  have hfour : 4 ≤ t308.magnitude := by
    refine le_trans ?_ (tenPow_bounds h308).2
    have height : (4 : ℚ) * 2 ≤ 10 ^ 308 :=
      le_trans (by norm_num) (pow_le_pow_right₀ (by norm_num) (by norm_num : 1 ≤ 308))
    exact (le_div_iff₀ two_pos).mpr height
  have hhalf : 1 / 2 ≤ t.magnitude := by
    refine le_trans ?_ (tenPow_bounds ht).2
    have : (1 : ℚ) ≤ 10 ^ (n - 308 * ((n - 1) / 308)) := one_le_pow₀ (by norm_num)
    linarith
  have hshrunk := magnitude_shrink_le hfour ((n - 1) / 308) (magnitude_word hs hf)
  unfold scale
  by_cases hzero : f.isZero = true
  · rw [if_pos hzero]
    rfl
  · rw [if_neg hzero, if_neg (by omega), if_neg (by omega), hn]
    simp only [h308, ht, Option.bind_eq_bind, Option.bind_some]
    split
    · rfl
    · exact div_bounds hhalf hshrunk

/-! ## Scaling up -/

/-- The decimals below this bound stay in range although the factors are rounded. -/
def safeBound : ℚ := (2 ^ 54 - 5) * 2 ^ (970 : ℤ)

theorem safeBound_lt : safeBound < (10 : ℚ) ^ (309 : ℤ) := by
  have hunit : (0 : ℚ) < 2 ^ (970 : ℤ) := zpow_pos two_pos _
  calc safeBound < 10 * 2 ^ 53 * 2 ^ (970 : ℤ) := by
        unfold safeBound
        gcongr
        norm_num
    _ = 10 * (2 ^ 93) ^ 11 := by
        rw [← pow_mul, show 93 * 11 = 53 + 970 by norm_num, pow_add,
          show (970 : ℤ) = ((970 : ℕ) : ℤ) by norm_num, zpow_natCast, mul_assoc]
    _ ≤ 10 * (10 ^ 28) ^ 11 := by
        gcongr
        norm_num
    _ = 10 ^ (309 : ℤ) := by
        rw [← pow_mul, ← pow_succ', show (309 : ℤ) = ((28 * 11 + 1 : ℕ) : ℤ) by norm_num,
          zpow_natCast]

theorem scale_isSome_of_le {s : Nat} (hs : 0 < s) {f : Double} (hf : ofNat s = some f) {e : Int}
    (he : 0 ≤ e) (hsafe : (s : ℚ) * 10 ^ e ≤ safeBound) : (scale f e).isSome = true := by
  have hunit : (0 : ℚ) < 2 ^ (970 : ℤ) := zpow_pos two_pos _
  have hone : (1 : ℚ) ≤ s := by exact_mod_cast hs
  have hle : e ≤ 308 := by
    by_contra hcontra
    have hten : (10 : ℚ) ^ (309 : ℤ) ≤ s * 10 ^ e := by
      calc (10 : ℚ) ^ (309 : ℤ) ≤ 10 ^ e := zpow_le_zpow_right₀ (by norm_num) (by omega)
        _ ≤ s * 10 ^ e := le_mul_of_one_le_left (by positivity) hone
    exact absurd (hten.trans hsafe) (not_le_of_gt safeBound_lt)
  obtain ⟨t, ht⟩ := Option.isSome_iff_exists.mp (tenPow_isSome (k := e.toNat) (by omega))
  obtain ⟨k, rfl⟩ := Int.eq_ofNat_of_zero_le he
  rw [zpow_natCast] at hsafe
  have hproduct : f.magnitude * t.magnitude < overflow := by
    calc f.magnitude * t.magnitude
        ≤ s * (1 + 1 / 2 ^ 53) * (10 ^ k * (1 + 1 / 2 ^ 53)) :=
          mul_le_mul (magnitude_ofNat hs hf).1 (tenPow_bounds ht).1 t.magnitude_nonneg
            (by positivity)
      _ = s * 10 ^ k * (1 + 1 / 2 ^ 53) ^ 2 := by ring
      _ ≤ safeBound * (1 + 1 / 2 ^ 53) ^ 2 := by gcongr
      _ = (2 ^ 54 - 5) * (1 + 1 / 2 ^ 53) ^ 2 * 2 ^ (970 : ℤ) := by
          rw [safeBound, mul_right_comm]
      _ < overflow := by
          unfold overflow
          gcongr
          norm_num
  unfold scale
  by_cases hzero : f.isZero = true
  · rw [if_pos hzero]
    rfl
  · rw [if_neg hzero, if_neg (by omega), if_pos he]
    simp only [ht, Option.bind_eq_bind, Option.bind_some]
    exact mul_isSome hproduct

theorem safeBound_eq : safeBound = ((2 ^ 56 - 20 : ℕ) : ℚ) * 2 ^ (968 : ℤ) := by
  rw [safeBound, show (970 : ℤ) = 968 + 2 by norm_num, zpow_add₀ two_ne_zero]
  generalize (2 : ℚ) ^ (968 : ℤ) = unit
  norm_num
  ring

/-- Scaling the digits of a shortest decimal stays in range. -/
theorem scale_shortest {d : Double} (hvalid : d.Valid) (hpos : 0 < d.significand)
    (he : 0 ≤ d.shortest.exponent) :
    (ofNat d.shortest.digits >>= (scale · d.shortest.exponent)).isSome = true := by
  obtain ⟨hdigits, hle, _, hvalue⟩ := shortest_spec hvalid hpos
  have hword : d.shortest.digits < limit 64 :=
    lt_of_le_of_lt hle (by decide)
  obtain ⟨f, hf⟩ := Option.isSome_iff_exists.mp (word_isSome hword)
  by_cases hgreat : d.exponent = 971 ∧ 2 ^ 53 - 2 ≤ d.significand
  · obtain ⟨hexponent, hsignificand⟩ := hgreat
    have hlt := hvalid.significand_lt
    obtain ⟨negative, m, e⟩ := d
    simp only at hexponent hsignificand hlt
    subst hexponent
    obtain rfl | rfl : m = 9007199254740990 ∨ m = 9007199254740991 := by omega
    · cases negative <;> decide +kernel
    · cases negative <;> decide +kernel
  · have hsafe : (d.shortest.digits : ℚ) * 10 ^ d.shortest.exponent ≤ safeBound := by
      apply hvalue.trans
      have hle := hvalid.exponent_le
      simp only [maxExponent] at hle
      rw [safeBound_eq]
      rcases Int.lt_or_eq_of_le hle with hsmall | heq
      · have hquarter : d.quarter ≤ 2 ^ (968 : ℤ) :=
          zpow_le_zpow_right₀ (by norm_num) (by omega)
        have hnat : 4 * d.significand + 2 ≤ 2 ^ 56 - 20 := by
          have := hvalid.significand_lt
          omega
        exact mul_le_mul (by exact_mod_cast hnat) hquarter d.quarter_pos.le (by positivity)
      · have hquarter : d.quarter = 2 * 2 ^ (968 : ℤ) := by
          rw [quarter, heq, show (971 : ℤ) - 2 = 968 + 1 by norm_num,
            zpow_add_one₀ two_ne_zero, mul_comm]
        have hnat : (4 * d.significand + 2) * 2 ≤ 2 ^ 56 - 20 := by
          have := hvalid.significand_lt
          omega
        rw [hquarter, ← mul_assoc]
        exact mul_le_mul_of_nonneg_right (by exact_mod_cast hnat) (zpow_pos two_pos _).le
    rw [hf]
    exact scale_isSome_of_le hdigits hf he hsafe

end EventHub.Json
