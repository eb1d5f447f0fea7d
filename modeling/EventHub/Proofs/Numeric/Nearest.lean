import EventHub.Proofs.Numeric.Shortest
/-!
# The nearest double

A quotient between the midpoints to the two neighbours of a double is rounded to that double. So a
decimal that reads back to a double is rounded to it when it is taken as one exact quotient, and
products and quotients of exact operands are right.
-/

namespace EventHub.Numeric

/-- A natural number at most half a unit off, and an even one if it is just half a unit. -/
theorem roundHalfEven_unique {num den m : Nat} (hden : 0 < den)
    (hlow : 2 * (den * m) ≤ 2 * num + den) (hhigh : 2 * num ≤ 2 * (den * m) + den)
    (heven : 2 * (den * m) = 2 * num + den ∨ 2 * num = 2 * (den * m) + den → m % 2 = 0) :
    roundHalfEven num den = m := by
  have hsplit := Nat.div_add_mod num den
  have hmod := Nat.mod_lt num hden
  unfold roundHalfEven
  simp only
  generalize num / den = q at hsplit ⊢
  generalize num % den = r at hsplit hmod ⊢
  have hm : m = q ∨ m = q + 1 := by
    rcases Nat.lt_or_ge m q with hlt | hge
    · have hstep := Nat.mul_le_mul_left den (show m + 1 ≤ q from hlt)
      rw [Nat.mul_add, Nat.mul_one] at hstep
      omega
    · by_contra hcontra
      have hstep := Nat.mul_le_mul_left den (show q + 2 ≤ m by omega)
      rw [Nat.mul_add] at hstep
      omega
  rcases hm with rfl | rfl
  · split
    · rfl
    · split
      · omega
      · rw [if_pos (heven (by omega))]
  · rw [Nat.mul_add, Nat.mul_one] at hlow hhigh heven
    split
    · omega
    · split
      · rfl
      · have := heven (by omega)
        rw [if_neg (by omega)]

theorem roundHalfEven_of_near {num den m : Nat} (hden : 0 < den)
    (hlow : (m : ℚ) ≤ num / den + 1 / 2) (hhigh : (num : ℚ) / den ≤ m + 1 / 2)
    (heven : (m : ℚ) = num / den + 1 / 2 ∨ (num : ℚ) / den = m + 1 / 2 → m % 2 = 0) :
    roundHalfEven num den = m := by
  have hden' : (0 : ℚ) < den := by exact_mod_cast hden
  have hcancel : (den : ℚ) * (num / den) = num := mul_div_cancel₀ _ hden'.ne'
  refine roundHalfEven_unique hden ?_ ?_ fun htie => heven ?_
  · have h := mul_le_mul_of_nonneg_left hlow hden'.le
    rw [mul_add, hcancel] at h
    have : (2 : ℚ) * (den * m) ≤ 2 * num + den := by linarith
    exact_mod_cast this
  · have h := mul_le_mul_of_nonneg_left hhigh hden'.le
    rw [mul_add, hcancel] at h
    have : (2 : ℚ) * num ≤ 2 * (den * m) + den := by linarith
    exact_mod_cast this
  · refine htie.imp (fun h => ?_) fun h => ?_
    · have h' : (2 : ℚ) * (den * m) = 2 * num + den := by exact_mod_cast h
      field_simp
      linarith
    · have h' : (2 : ℚ) * num = 2 * (den * m) + den := by exact_mod_cast h
      field_simp
      linarith

namespace Double

variable {d : Double} {num den : Nat}

/-- The quotient lies between the midpoints to the two neighbours of the double, which themselves
count when the significand is even. -/
structure Takes (d : Double) (q : ℚ) : Prop where
  low : d.lowerQuarters * d.quarter ≤ q
  high : q ≤ (4 * d.significand + 2 : ℕ) * d.quarter
  even : q = d.lowerQuarters * d.quarter ∨ q = (4 * d.significand + 2 : ℕ) * d.quarter →
    d.significand % 2 = 0

theorem takes_of_readsBack {x : Decimal} (hreads : d.readsBack x = true) : d.Takes x.value := by
  obtain ⟨hlow, hhigh⟩ := readsBack_bounds hreads
  refine ⟨hlow, hhigh, fun htie => ?_⟩
  simp only [readsBack, Bool.and_eq_true, Bool.or_eq_true, decide_eq_true_eq, cmpScaled_eq_gt,
    cmpScaled_eq_lt, cmpScaled_eq_eq] at hreads
  rcases htie with htie | htie
  · rcases hreads.1 with h | ⟨heven, _⟩
    · exact absurd htie (ne_of_gt h)
    · exact heven
  · rcases hreads.2 with h | ⟨heven, _⟩
    · exact absurd htie (ne_of_lt h)
    · exact heven

theorem takes_shortest (hvalid : d.Valid) (hpos : 0 < d.significand) :
    d.Takes d.shortest.value := by
  obtain ⟨n, y, _, hgrid, hshortest⟩ := exists_onGrid hvalid hpos
  rw [hshortest, (y.strip_spec 17).1]
  exact takes_of_readsBack (onGrid_eq_some hgrid).1

theorem takes_magnitude (hpos : 0 < d.significand) : d.Takes d.magnitude := by
  have hquarter := d.quarter_pos
  have hlower : d.lowerQuarters < 4 * d.significand := by
    unfold lowerQuarters
    split <;> omega
  have hlow : (d.lowerQuarters : ℚ) * d.quarter < 4 * d.significand * d.quarter :=
    mul_lt_mul_of_pos_right (by exact_mod_cast hlower) hquarter
  have hhigh : 4 * (d.significand : ℚ) * d.quarter <
      (4 * d.significand + 2 : ℕ) * d.quarter := by
    push_cast
    exact mul_lt_mul_of_pos_right (by linarith) hquarter
  rw [magnitude_eq_quarter]
  refine ⟨hlow.le, hhigh.le, fun htie => ?_⟩
  rcases htie with htie | htie
  · exact absurd htie (ne_of_gt hlow)
  · exact absurd htie (ne_of_lt hhigh)

/-! ## In units of the last place -/

theorem quarter_div (d : Double) (n : Nat) : (n : ℚ) * d.quarter / 2 ^ d.exponent = n / 4 := by
  rw [quarter, zpow_sub₀ two_ne_zero]
  field_simp
  norm_num

theorem Takes.scaled {q : ℚ} (htakes : d.Takes q) :
    (d.lowerQuarters : ℚ) / 4 ≤ q / 2 ^ d.exponent ∧
      q / 2 ^ d.exponent ≤ d.significand + 1 / 2 ∧
      (q / 2 ^ d.exponent = (d.lowerQuarters : ℚ) / 4 ∨
        q / 2 ^ d.exponent = d.significand + 1 / 2 → d.significand % 2 = 0) := by
  have hunit : (0 : ℚ) < 2 ^ d.exponent := zpow_pos two_pos _
  have hupper : ((4 * d.significand + 2 : ℕ) : ℚ) / 4 = d.significand + 1 / 2 := by
    push_cast
    ring
  rw [← quarter_div, ← hupper, ← quarter_div]
  refine ⟨div_le_div_of_nonneg_right htakes.low hunit.le,
    div_le_div_of_nonneg_right htakes.high hunit.le, fun htie => htakes.even ?_⟩
  exact htie.imp (div_left_inj' hunit.ne').mp (div_left_inj' hunit.ne').mp

theorem lowerQuarters_pos (hpos : 0 < d.significand) : 0 < d.lowerQuarters := by
  unfold lowerQuarters
  split <;> omega

theorem lowerQuarters_narrow (hpos : 0 < d.significand) (hnarrow : d.narrowBelow = true) :
    (d.lowerQuarters : ℚ) / 4 = d.significand - 1 / 4 := by
  rw [lowerQuarters, if_pos hnarrow, Nat.cast_sub (by omega)]
  push_cast
  ring

theorem lowerQuarters_wide (hpos : 0 < d.significand) (hnarrow : d.narrowBelow = false) :
    (d.lowerQuarters : ℚ) / 4 = d.significand - 1 / 2 := by
  rw [lowerQuarters, hnarrow, if_neg (by simp), Nat.cast_sub (by omega)]
  push_cast
  ring

theorem num_pos_of_takes (hpos : 0 < d.significand) (htakes : d.Takes ((num : ℚ) / den)) :
    0 < num := by
  by_contra hcontra
  have hzero : num = 0 := by omega
  have hlow := htakes.low
  have hquarters : (0 : ℚ) < d.lowerQuarters := by exact_mod_cast lowerQuarters_pos hpos
  rw [hzero, Nat.cast_zero, zero_div] at hlow
  exact absurd hlow (not_le_of_gt (mul_pos hquarters d.quarter_pos))

theorem floorLog2_eq {l : ℤ} (hnum : 0 < num) (hden : 0 < den)
    (hlow : (2 : ℚ) ^ l ≤ num / den) (hhigh : (num : ℚ) / den < 2 ^ (l + 1)) :
    floorLog2 num den = l := by
  obtain ⟨hbelow, habove⟩ := floorLog2_spec hnum hden
  have hle := (zpow_lt_zpow_iff_right₀ (one_lt_two (α := ℚ))).mp (hlow.trans_lt habove)
  have hge := (zpow_lt_zpow_iff_right₀ (one_lt_two (α := ℚ))).mp (hbelow.trans_lt hhigh)
  omega

/-- On the grid of the double itself its significand is found. -/
theorem round_of_takes (hpos : 0 < d.significand) (hden : 0 < den)
    (htakes : d.Takes ((num : ℚ) / den))
    (hinside : d.narrowBelow = true → (d.significand : ℚ) ≤ num / den / 2 ^ d.exponent) :
    roundHalfEven (num * Nat.pow 2 (-d.exponent).toNat) (den * Nat.pow 2 d.exponent.toNat) =
      d.significand := by
  obtain ⟨hlow, hhigh, heven⟩ := htakes.scaled
  refine roundHalfEven_of_near (Nat.mul_pos hden (Nat.two_pow_pos _)) ?_ ?_ fun htie => ?_
  · rw [grid_quotient]
    cases hnarrow : d.narrowBelow with
    | true =>
      have := hinside hnarrow
      linarith
    | false =>
      rw [lowerQuarters_wide hpos hnarrow] at hlow
      linarith
  · rw [grid_quotient]
    exact hhigh
  · rw [grid_quotient] at htie
    refine heven (htie.imp (fun h => ?_) id)
    cases hnarrow : d.narrowBelow with
    | true =>
      have := hinside hnarrow
      linarith
    | false =>
      rw [lowerQuarters_wide hpos hnarrow]
      linarith

/-- Below the least significand of an exponent the grid is finer, and rounding there carries. -/
theorem round_of_takes_below (hden : 0 < den) (htakes : d.Takes ((num : ℚ) / den))
    (hnarrow : d.narrowBelow = true)
    (hbelow : (num : ℚ) / den / 2 ^ d.exponent < d.significand) :
    roundHalfEven (num * Nat.pow 2 (-(d.exponent - 1)).toNat)
      (den * Nat.pow 2 (d.exponent - 1).toNat) = limit 53 := by
  have hsignificand : (d.significand : ℚ) = 2 ^ 52 := by
    simp only [narrowBelow, Bool.and_eq_true, decide_eq_true_eq] at hnarrow
    rw [hnarrow.1]
    norm_num [limit]
  have hpos : 0 < d.significand := by
    have : (0 : ℚ) < d.significand := by
      rw [hsignificand]
      positivity
    exact_mod_cast this
  have hlow := htakes.scaled.1
  rw [lowerQuarters_narrow hpos hnarrow, hsignificand] at hlow
  rw [hsignificand] at hbelow
  have hdouble : (num : ℚ) / den / 2 ^ (d.exponent - 1) = 2 * (num / den / 2 ^ d.exponent) := by
    rw [zpow_sub_one₀ two_ne_zero]
    field_simp
  have hlimit : ((limit 53 : ℕ) : ℚ) = 2 * 2 ^ 52 := by norm_num [limit]
  refine roundHalfEven_of_near (Nat.mul_pos hden (Nat.two_pow_pos _)) ?_ ?_ fun _ => rfl
  · rw [grid_quotient, hdouble, hlimit]
    linarith
  · rw [grid_quotient, hdouble, hlimit]
    linarith

theorem lt_of_takes (hvalid : d.Valid) (htakes : d.Takes ((num : ℚ) / den)) :
    (num : ℚ) / den < 2 ^ (53 + d.exponent) := by
  have hsignificand : (d.significand : ℚ) + 1 ≤ 2 ^ 53 := by
    exact_mod_cast hvalid.significand_lt
  have hhigh := htakes.scaled.2.1
  rw [zpow_add₀ two_ne_zero, ← div_lt_iff₀ (zpow_pos two_pos _)]
  calc (num : ℚ) / den / 2 ^ d.exponent ≤ d.significand + 1 / 2 := hhigh
    _ < 2 ^ (53 : ℤ) := by
      norm_num at hsignificand ⊢
      linarith

/-- Rounding takes place on the grid of the double itself. -/
theorem gridOf_of_takes (hvalid : d.Valid) (hpos : 0 < d.significand) (hden : 0 < den)
    (htakes : d.Takes ((num : ℚ) / den))
    (hinside : d.narrowBelow = true → (d.significand : ℚ) ≤ num / den / 2 ^ d.exponent) :
    gridOf num den = d.exponent := by
  have hnum := num_pos_of_takes hpos htakes
  have habove := lt_of_takes hvalid htakes
  rcases eq_or_ne d.exponent minExponent with hmin | hmin
  · have hlt := (zpow_lt_zpow_iff_right₀ (one_lt_two (α := ℚ))).mp
      ((floorLog2_spec hnum hden).1.trans_lt habove)
    rw [gridOf]
    omega
  · have hnormal : 2 ^ 52 ≤ d.significand := hvalid.normal.resolve_right hmin
    have hscaled : (2 : ℚ) ^ 52 ≤ num / den / 2 ^ d.exponent := by
      cases hnarrow : d.narrowBelow with
      | true =>
        have hle : (2 : ℚ) ^ 52 ≤ d.significand := by exact_mod_cast hnormal
        exact hle.trans (hinside hnarrow)
      | false =>
        have hlow := htakes.scaled.1
        have hne : d.significand ≠ 2 ^ 52 := by
          intro heq
          have hge := hvalid.exponent_ge
          simp only [narrowBelow, Bool.and_eq_false_iff, decide_eq_false_iff_not] at hnarrow
          rcases hnarrow with h | h
          · exact h heq
          · omega
        have hle : (2 : ℚ) ^ 52 + 1 ≤ d.significand := by
          exact_mod_cast (show 2 ^ 52 + 1 ≤ d.significand by omega)
        rw [lowerQuarters_wide hpos hnarrow] at hlow
        linarith
    have hfloor : floorLog2 num den = 52 + d.exponent := by
      refine floorLog2_eq hnum hden ?_ ?_
      · rw [zpow_add₀ two_ne_zero, ← le_div_iff₀ (zpow_pos two_pos _)]
        exact_mod_cast hscaled
      · rwa [show 52 + d.exponent + 1 = 53 + d.exponent by ring]
    have hge := hvalid.exponent_ge
    rw [gridOf, hfloor]
    omega

theorem gridOf_of_takes_below (hpos : 0 < d.significand) (hden : 0 < den)
    (htakes : d.Takes ((num : ℚ) / den)) (hnarrow : d.narrowBelow = true)
    (hbelow : (num : ℚ) / den / 2 ^ d.exponent < d.significand) :
    gridOf num den = d.exponent - 1 := by
  have hlow := htakes.scaled.1
  have hunit : (0 : ℚ) < 2 ^ d.exponent := zpow_pos two_pos _
  rw [lowerQuarters_narrow hpos hnarrow] at hlow
  simp only [narrowBelow, Bool.and_eq_true, decide_eq_true_eq] at hnarrow
  obtain ⟨hleast, hexponent⟩ := hnarrow
  have hsignificand : (d.significand : ℚ) = 2 ^ 52 := by
    rw [hleast]
    norm_num [limit]
  have hfloor : floorLog2 num den = 51 + d.exponent := by
    refine floorLog2_eq (num_pos_of_takes hpos htakes) hden ?_ ?_
    · rw [zpow_add₀ two_ne_zero, ← le_div_iff₀ hunit]
      norm_num at hsignificand ⊢
      linarith
    · rw [show 51 + d.exponent + 1 = 52 + d.exponent by ring, zpow_add₀ two_ne_zero,
        ← div_lt_iff₀ hunit]
      norm_num at hsignificand ⊢
      linarith
  rw [gridOf, hfloor]
  omega

/-- A quotient that a double takes is rounded to the double. -/
theorem ofRatio_of_takes (hvalid : d.Valid) (hpos : 0 < d.significand) (hden : 0 < den)
    (htakes : d.Takes ((num : ℚ) / den)) (negative : Bool) :
    ofRatio negative num den = some { d with negative := negative } := by
  have hle := hvalid.exponent_le
  rw [ofRatio_pos (num_pos_of_takes hpos htakes)]
  simp only
  by_cases hbelow : d.narrowBelow = true ∧ (num : ℚ) / den / 2 ^ d.exponent < d.significand
  · obtain ⟨hnarrow, hbelow⟩ := hbelow
    have hleast : d.significand = limit 52 := by
      simp only [narrowBelow, Bool.and_eq_true, decide_eq_true_eq] at hnarrow
      exact hnarrow.1
    rw [gridOf_of_takes_below hpos hden htakes hnarrow hbelow,
      round_of_takes_below hden htakes hnarrow hbelow, if_pos rfl, if_neg (by omega), ← hleast,
      sub_add_cancel]
  · have hinside : d.narrowBelow = true → (d.significand : ℚ) ≤ num / den / 2 ^ d.exponent :=
      fun hnarrow => not_lt.mp fun h => hbelow ⟨hnarrow, h⟩
    have hne : d.significand ≠ limit 53 := Nat.ne_of_lt hvalid.significand_lt
    rw [gridOf_of_takes hvalid hpos hden htakes hinside,
      round_of_takes hpos hden htakes hinside, if_neg hne, if_neg (not_lt.mpr hle)]

/-- No two doubles of one sign take the same quotient. -/
theorem eq_of_takes {d' : Double} {q : ℚ} (hvalid : d.Valid) (hvalid' : d'.Valid)
    (hpos : 0 < d.significand) (hpos' : 0 < d'.significand) (htakes : d.Takes q)
    (htakes' : d'.Takes q) (hsign : d.negative = d'.negative) : d = d' := by
  have hq : 0 ≤ q := le_trans (mul_nonneg (Nat.cast_nonneg _) d.quarter_pos.le) htakes.low
  have hsplit : ((q.num.toNat : ℕ) : ℚ) / (q.den : ℕ) = q := by
    have hnum : ((q.num.toNat : ℤ) : ℚ) = q.num := by
      rw [Int.toNat_of_nonneg (Rat.num_nonneg.mpr hq)]
    have hcast : ((q.num.toNat : ℕ) : ℚ) = ((q.num.toNat : ℤ) : ℚ) := by norm_cast
    rw [hcast, hnum, Rat.num_div_den]
  rw [← hsplit] at htakes htakes'
  have hsome := ofRatio_of_takes hvalid hpos q.den_pos htakes d.negative
  rw [ofRatio_of_takes hvalid' hpos' q.den_pos htakes' d.negative, Option.some.injEq] at hsome
  calc d = { d' with negative := d.negative } := hsome.symm
    _ = d' := by rw [hsign]

/-! ## Exact operands -/

/-- A positive integer below the limit of the significands is a double. -/
theorem ofNat_exact {n : Nat} (hpos : 0 < n) (hlt : n < 2 ^ 53) :
    ∃ f, ofNat n = some f ∧ f.negative = false ∧ f.magnitude = n := by
  have hlog : n.log2 < 53 := (Nat.log2_lt hpos.ne').mpr hlt
  have hsplit : 2 ^ n.log2 * 2 ^ (52 - n.log2) = 2 ^ 52 := by
    rw [← pow_add]
    congr 1
    omega
  have hlow : 2 ^ 52 ≤ n * 2 ^ (52 - n.log2) := by
    rw [← hsplit]
    exact Nat.mul_le_mul_right _ (Nat.log2_self_le hpos.ne')
  have hhigh : n * 2 ^ (52 - n.log2) < 2 ^ 53 := by
    calc n * 2 ^ (52 - n.log2) < 2 ^ (n.log2 + 1) * 2 ^ (52 - n.log2) :=
          Nat.mul_lt_mul_of_pos_right Nat.lt_log2_self (Nat.two_pow_pos _)
      _ = 2 * (2 ^ n.log2 * 2 ^ (52 - n.log2)) := by rw [pow_succ']; ring
      _ = 2 ^ 53 := by rw [hsplit]; norm_num
  obtain ⟨f, hf⟩ : ∃ f : Double, f = ⟨false, n * 2 ^ (52 - n.log2), n.log2 - 52⟩ :=
    ⟨_, rfl⟩
  have hvalid : f.Valid := by
    rw [hf]
    refine ⟨hhigh, ?_, ?_, Or.inl hlow⟩ <;> simp only [minExponent, maxExponent] <;> omega
  have hmagnitude : f.magnitude = n := by
    rw [hf, magnitude]
    have hexponent : ((n.log2 : ℤ) - 52) = -((52 - n.log2 : ℕ) : ℤ) := by omega
    rw [hexponent, zpow_neg, zpow_natCast]
    push_cast
    field_simp
  have hsignificand : 0 < f.significand := by
    rw [hf]
    exact Nat.lt_of_lt_of_le (by norm_num) hlow
  have hquotient : ((n : ℚ) / (1 : ℕ)) = f.magnitude := by
    rw [hmagnitude, Nat.cast_one, div_one]
  have htakes := takes_magnitude hsignificand
  rw [← hquotient] at htakes
  refine ⟨f, ?_, by rw [hf], hmagnitude⟩
  rw [ofNat, ofRatio_of_takes hvalid hsignificand Nat.one_pos htakes, hf]

theorem tenPow_exact {k : Nat} (hk : k ≤ 22) :
    ∃ t, tenPow k = some t ∧ t.negative = false ∧ t.magnitude = 10 ^ k := by
  have hall : ∀ k ≤ 22, (tenPow k).any fun t =>
      !t.negative && t.num = Nat.pow 10 k * t.den := by decide +kernel
  obtain ⟨t, ht, htest⟩ := (Option.any_eq_true _ _).mp (hall k hk)
  simp only [Bool.and_eq_true, Bool.not_eq_true', decide_eq_true_eq] at htest
  obtain ⟨hnegative, hnum⟩ := htest
  have hden : (t.den : ℚ) ≠ 0 := by exact_mod_cast t.den_pos.ne'
  refine ⟨t, ht, hnegative, ?_⟩
  rw [← num_div_den, hnum, Nat.pow_eq]
  push_cast
  exact mul_div_cancel_right₀ _ hden

variable {a b : Double}

theorem mul_of_takes (hvalid : d.Valid) (hpos : 0 < d.significand)
    (htakes : d.Takes (a.magnitude * b.magnitude)) :
    a.mul b = some { d with negative := a.negative != b.negative } := by
  refine ofRatio_of_takes hvalid hpos (Nat.mul_pos a.den_pos b.den_pos) ?_ _
  rw [Nat.cast_mul, Nat.cast_mul, ← div_mul_div_comm, num_div_den, num_div_den]
  exact htakes

theorem div_of_takes (hvalid : d.Valid) (hpos : 0 < d.significand) (hb : 0 < b.magnitude)
    (htakes : d.Takes (a.magnitude / b.magnitude)) :
    a.div b = some { d with negative := a.negative != b.negative } := by
  refine ofRatio_of_takes hvalid hpos (Nat.mul_pos a.den_pos (num_pos hb)) ?_ _
  rw [div_quotient]
  exact htakes

/-! ## Results are doubles -/

theorem valid_zero (negative : Bool) : (zero negative).Valid :=
  ⟨by simp [zero], le_refl _, by simp [zero, minExponent, maxExponent], Or.inr rfl⟩

theorem Valid.withSign (hvalid : d.Valid) (negative : Bool) :
    Valid { d with negative := negative } :=
  ⟨hvalid.significand_lt, hvalid.exponent_ge, hvalid.exponent_le, hvalid.normal⟩

theorem valid_ofRatio {negative : Bool} (hden : 0 < den)
    (hd : ofRatio negative num den = some d) : d.Valid := by
  rcases Nat.eq_zero_or_pos num with rfl | hnum
  · rw [ofRatio, if_pos rfl, Option.some.injEq] at hd
    exact hd ▸ valid_zero negative
  obtain ⟨-, hge, hlimit⟩ := grid_significand hnum hden
  rw [ofRatio_pos hnum] at hd
  simp only at hd
  generalize roundHalfEven (num * Nat.pow 2 (-gridOf num den).toNat)
    (den * Nat.pow 2 (gridOf num den).toNat) = m at hd hge hlimit
  have hgrid : minExponent ≤ gridOf num den := le_max_right _ _
  have hnormal : gridOf num den ≠ minExponent → 2 ^ 52 ≤ m := by
    intro hne
    have hfloor : floorLog2 num den = gridOf num den + 52 := by
      unfold gridOf at hne ⊢
      omega
    have hlow : (2 : ℚ) ^ 52 ≤ num / den / 2 ^ gridOf num den := by
      rw [le_div_iff₀ (zpow_pos two_pos _), mul_comm, ← zpow_natCast,
        ← zpow_add₀ two_ne_zero]
      have := (floorLog2_spec hnum hden).1
      rwa [hfloor] at this
    have hlt : ((2 ^ 52 : ℕ) : ℚ) < (m + 1 : ℕ) := by
      push_cast
      linarith
    exact Nat.le_of_lt_succ (by exact_mod_cast hlt)
  split at hd
  · split at hd
    · cases hd
    · next hmax =>
      rw [Option.some.injEq] at hd
      subst hd
      have hlimit52 : limit 52 < 2 ^ 53 := by decide
      exact ⟨hlimit52, by simp only; omega, not_lt.mp hmax, Or.inl (Nat.le_refl _)⟩
  · next hcarry =>
    split at hd
    · cases hd
    · next hmax =>
      rw [Option.some.injEq] at hd
      subst hd
      refine ⟨Nat.lt_of_le_of_ne hlimit hcarry, hgrid, not_lt.mp hmax, ?_⟩
      by_cases hmin : gridOf num den = minExponent
      · exact Or.inr hmin
      · exact Or.inl (hnormal hmin)

theorem valid_ofNat {n : Nat} (hd : ofNat n = some d) : d.Valid := valid_ofRatio Nat.one_pos hd

theorem valid_mul (hd : a.mul b = some d) : d.Valid :=
  valid_ofRatio (Nat.mul_pos a.den_pos b.den_pos) hd

theorem valid_div (hb : 0 < b.magnitude) (hd : a.div b = some d) : d.Valid :=
  valid_ofRatio (Nat.mul_pos a.den_pos (num_pos hb)) hd

end Double

end EventHub.Numeric
