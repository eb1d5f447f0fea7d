import EventHub.Numeric.Shortest
import EventHub.Proofs.Numeric.Rounding
/-!
# The shortest decimal of a double

Seventeen digits always suffice: a grid of that many digits is finer than the doubles. So the
shortest decimal has at most as many, and it lies between the midpoints to the two neighbours of the
double.
-/

namespace EventHub.Numeric

def Decimal.value (x : Decimal) : ℚ := x.digits * 10 ^ x.exponent

/-! ## Stripping zeros -/

theorem Decimal.strip_spec (n : Nat) (x : Decimal) :
    (x.strip n).value = x.value ∧ (x.strip n).digits ≤ x.digits ∧
      (0 < x.digits → 0 < (x.strip n).digits) ∧
      x.exponent ≤ (x.strip n).exponent ∧ (x.strip n).exponent ≤ x.exponent + n := by
  induction n generalizing x with
  | zero => exact ⟨rfl, Nat.le_refl _, id, Int.le_refl _, by simp [strip]⟩
  | succ n ih =>
    unfold strip
    split
    · next hzero =>
      obtain ⟨hvalue, hle, hpos, hlow, hhigh⟩ := ih ⟨x.digits / 10, x.exponent + 1⟩
      simp only at hlow hhigh
      refine ⟨?_, hle.trans (Nat.div_le_self _ _), fun h => hpos (by simp only; omega), by omega,
        by omega⟩
      have hdigits : (x.digits : ℚ) = (x.digits / 10 : ℕ) * 10 := by
        exact_mod_cast (Nat.div_mul_cancel (Nat.dvd_of_mod_eq_zero hzero)).symm
      rw [hvalue, Decimal.value, Decimal.value, zpow_add_one₀ (by norm_num), hdigits]
      ring
    · exact ⟨rfl, Nat.le_refl _, id, Int.le_refl _, by omega⟩

/-! ## Comparing with the midpoints -/

/-- Both sides of a comparison are multiplied by the same positive number. -/
theorem exists_scale (a : Nat) (i : Int) (n : Nat) (j : Int) : ∃ unit : ℚ, 0 < unit ∧
    ((a * Nat.pow 10 i.toNat * Nat.pow 2 (-j).toNat : ℕ) : ℚ) = a * 10 ^ i * unit ∧
    ((n * Nat.pow 2 j.toNat * Nat.pow 10 (-i).toNat : ℕ) : ℚ) = n * 2 ^ j * unit := by
  refine ⟨10 ^ (-i).toNat * 2 ^ (-j).toNat, by positivity, ?_, ?_⟩
  · rw [zpow_eq_div, Nat.pow_eq, Nat.pow_eq]
    push_cast
    field_simp
  · rw [zpow_eq_div, Nat.pow_eq, Nat.pow_eq]
    push_cast
    field_simp

theorem cmpScaled_eq_lt (a : Nat) (i : Int) (n : Nat) (j : Int) :
    cmpScaled a i n j = .lt ↔ (a : ℚ) * 10 ^ i < n * 2 ^ j := by
  obtain ⟨unit, hunit, hleft, hright⟩ := exists_scale a i n j
  rw [cmpScaled, Nat.compare_eq_lt, ← Nat.cast_lt (α := ℚ), hleft, hright,
    mul_lt_mul_iff_left₀ hunit]

theorem cmpScaled_eq_gt (a : Nat) (i : Int) (n : Nat) (j : Int) :
    cmpScaled a i n j = .gt ↔ (n : ℚ) * 2 ^ j < a * 10 ^ i := by
  obtain ⟨unit, hunit, hleft, hright⟩ := exists_scale a i n j
  rw [cmpScaled, Nat.compare_eq_gt, ← Nat.cast_lt (α := ℚ), hleft, hright,
    mul_lt_mul_iff_left₀ hunit]

theorem cmpScaled_eq_eq (a : Nat) (i : Int) (n : Nat) (j : Int) :
    cmpScaled a i n j = .eq ↔ (a : ℚ) * 10 ^ i = n * 2 ^ j := by
  obtain ⟨unit, hunit, hleft, hright⟩ := exists_scale a i n j
  rw [cmpScaled, Nat.compare_eq_eq, ← Nat.cast_inj (R := ℚ), hleft, hright,
    mul_left_inj' hunit.ne']

namespace Double

structure Valid (d : Double) : Prop where
  significand_lt : d.significand < 2 ^ 53
  exponent_ge : minExponent ≤ d.exponent
  exponent_le : d.exponent ≤ maxExponent
  normal : 2 ^ 52 ≤ d.significand ∨ d.exponent = minExponent

variable {d : Double} {x : Decimal}

def quarter (d : Double) : ℚ := 2 ^ (d.exponent - 2)

theorem quarter_pos (d : Double) : 0 < d.quarter := zpow_pos two_pos _

theorem magnitude_eq_quarter (d : Double) : d.magnitude = 4 * d.significand * d.quarter := by
  rw [magnitude, quarter, zpow_sub₀ two_ne_zero]
  norm_num
  ring

def lowerQuarters (d : Double) : Nat :=
  if d.narrowBelow then 4 * d.significand - 1 else 4 * d.significand - 2

theorem readsBack_bounds (hreads : d.readsBack x = true) :
    d.lowerQuarters * d.quarter ≤ x.value ∧
      x.value ≤ (4 * d.significand + 2 : ℕ) * d.quarter := by
  simp only [readsBack, Bool.and_eq_true, Bool.or_eq_true, decide_eq_true_eq, cmpScaled_eq_gt,
    cmpScaled_eq_lt, cmpScaled_eq_eq] at hreads
  obtain ⟨hlow, hhigh⟩ := hreads
  constructor
  · rcases hlow with hlow | ⟨_, hlow⟩
    · exact le_of_lt hlow
    · exact le_of_eq hlow.symm
  · rcases hhigh with hhigh | ⟨_, hhigh⟩
    · exact le_of_lt hhigh
    · exact le_of_eq hhigh

theorem not_readsBack_bounds (hreads : d.readsBack x = false) :
    x.value ≤ d.lowerQuarters * d.quarter ∨
      (4 * d.significand + 2 : ℕ) * d.quarter ≤ x.value := by
  by_contra hcontra
  rw [not_or, not_le, not_le] at hcontra
  have hreads' : d.readsBack x = true := by
    simp only [readsBack, Bool.and_eq_true, Bool.or_eq_true, decide_eq_true_eq, cmpScaled_eq_gt,
      cmpScaled_eq_lt, cmpScaled_eq_eq]
    exact ⟨Or.inl hcontra.1, Or.inl hcontra.2⟩
  rw [hreads] at hreads'
  simp at hreads'

/-! ## The decimal order -/

theorem magnitude_lt (hvalid : d.Valid) : d.magnitude < 2 ^ (53 + d.exponent) := by
  have hlt : (d.significand : ℚ) < 2 ^ 53 := by exact_mod_cast hvalid.significand_lt
  rw [magnitude, zpow_add₀ two_ne_zero]
  exact mul_lt_mul_of_pos_right hlt (zpow_pos two_pos _)

theorem length_toDigits {n : Nat} (hn : 0 < n) :
    10 ^ ((Nat.toDigits 10 n).length - 1) ≤ n ∧ n < 10 ^ (Nat.toDigits 10 n).length := by
  obtain ⟨k, hk⟩ : ∃ k, (Nat.toDigits 10 n).length = k + 1 :=
    Nat.exists_eq_add_one.mpr Nat.length_toDigits_pos
  rw [hk, Nat.add_sub_cancel]
  refine ⟨?_, (Nat.length_toDigits_le_iff (by omega) (by omega)).mp (Nat.le_of_eq hk)⟩
  rcases Nat.eq_zero_or_pos k with rfl | hpos
  · exact hn
  · by_contra hcontra
    have := (Nat.length_toDigits_le_iff (b := 10) (by omega) hpos).mpr (Nat.lt_of_not_le hcontra)
    omega

/-- The least positive double exceeds the unit that is used to find the decimal order. -/
theorem unit_le_magnitude (hvalid : d.Valid) (hpos : 0 < d.significand) :
    1 ≤ d.magnitude * 10 ^ 324 := by
  have hsignificand : (1 : ℚ) ≤ d.significand := by exact_mod_cast hpos
  have hexponent : (2 : ℚ) ^ (-1074 : ℤ) ≤ 2 ^ d.exponent :=
    zpow_le_zpow_right₀ (by norm_num) hvalid.exponent_ge
  have hunit : (2 : ℚ) ^ (179 * 6) ≤ 10 ^ (54 * 6) := by
    rw [pow_mul, pow_mul]
    exact pow_le_pow_left₀ (by positivity) (by norm_num) 6
  have hcancel : (2 : ℚ) ^ (-1074 : ℤ) * 2 ^ (1074 : ℕ) = 1 := by
    rw [← zpow_natCast, ← zpow_add₀ two_ne_zero]
    norm_num
  calc (1 : ℚ) = 1 * 2 ^ (-1074 : ℤ) * 2 ^ (1074 : ℕ) := by rw [one_mul, hcancel]
    _ ≤ d.significand * 2 ^ d.exponent * 10 ^ 324 := by gcongr

/-- The digits of a magnitude in units of `10 ^ -k`, rounded down, give its decimal order. -/
theorem order_spec {k : Nat} (hunit : 1 ≤ d.magnitude * 10 ^ k) {l : Nat}
    (hl : (Nat.toDigits 10 (d.num * Nat.pow 10 k / d.den)).length = l) :
    (10 : ℚ) ^ ((l : ℤ) - k - 1) ≤ d.magnitude ∧ d.magnitude < 10 ^ ((l : ℤ) - k) := by
  obtain ⟨n, hn⟩ : ∃ n, d.num * 10 ^ k / d.den = n := ⟨_, rfl⟩
  have hscaled : d.magnitude * 10 ^ k = ((d.num * 10 ^ k : ℕ) : ℚ) / d.den := by
    simp only [← num_div_den, Nat.cast_mul, Nat.cast_pow, Nat.cast_ofNat, div_mul_eq_mul_div]
  have hden : (0 : ℚ) < d.den := by exact_mod_cast d.den_pos
  have hfloor : (n : ℚ) ≤ d.magnitude * 10 ^ k ∧ d.magnitude * 10 ^ k < n + 1 := by
    rw [hscaled, le_div_iff₀ hden, div_lt_iff₀ hden, ← hn]
    constructor
    · exact_mod_cast Nat.div_mul_le_self _ _
    · exact_mod_cast Nat.lt_mul_of_div_lt (Nat.lt_succ_self _) d.den_pos
  have hnpos : 0 < n := by
    rw [← hn]
    refine Nat.div_pos ?_ d.den_pos
    rw [hscaled, le_div_iff₀ hden, one_mul] at hunit
    exact_mod_cast hunit
  rw [Nat.pow_eq, hn] at hl
  obtain ⟨hlow, hhigh⟩ := length_toDigits hnpos
  have hlength : 0 < (Nat.toDigits 10 n).length := Nat.length_toDigits_pos
  rw [hl] at hlow hhigh hlength
  have hten : (0 : ℚ) < 10 ^ k := by positivity
  have hpow (m : ℤ) : (10 : ℚ) ^ (m - k) * 10 ^ k = 10 ^ m := by
    rw [← zpow_natCast, ← zpow_add₀ (by norm_num), sub_add_cancel]
  constructor
  · refine le_of_mul_le_mul_right ?_ hten
    calc (10 : ℚ) ^ ((l : ℤ) - k - 1) * 10 ^ k = 10 ^ ((l - 1 : ℕ) : ℤ) := by
          rw [show (l : ℤ) - k - 1 = ((l - 1 : ℕ) : ℤ) - k by omega, hpow]
      _ ≤ n := by
          rw [zpow_natCast]
          exact_mod_cast hlow
      _ ≤ d.magnitude * 10 ^ k := hfloor.1
  · refine lt_of_mul_lt_mul_right ?_ hten.le
    calc d.magnitude * 10 ^ k < n + 1 := hfloor.2
      _ ≤ 10 ^ (l : ℤ) := by
          rw [zpow_natCast]
          exact_mod_cast hhigh
      _ = 10 ^ ((l : ℤ) - k) * 10 ^ k := (hpow _).symm

theorem magnitudeOrder_spec (hvalid : d.Valid) (hpos : 0 < d.significand) :
    (10 : ℚ) ^ (d.magnitudeOrder - 1) ≤ d.magnitude ∧
      d.magnitude < 10 ^ d.magnitudeOrder :=
  order_spec (unit_le_magnitude hvalid hpos) rfl

/-! ## The grids -/

theorem grid_quotient_ten (d : Double) (g : Int) :
    ((d.num * Nat.pow 10 (-g).toNat : ℕ) : ℚ) / (d.den * Nat.pow 10 g.toNat : ℕ) =
      d.magnitude / 10 ^ g := by
  rw [← num_div_den, zpow_eq_div, Nat.pow_eq, Nat.pow_eq]
  push_cast
  field_simp

def gridFloor (d : Double) (g : Int) : Nat :=
  (d.num * Nat.pow 10 (-g).toNat) / (d.den * Nat.pow 10 g.toNat)

theorem gridFloor_spec (d : Double) (g : Int) :
    (d.gridFloor g : ℚ) * 10 ^ g ≤ d.magnitude ∧
      d.magnitude < (d.gridFloor g + 1 : ℕ) * 10 ^ g := by
  have hpos : 0 < d.den * Nat.pow 10 g.toNat :=
    Nat.mul_pos d.den_pos (Nat.pow_pos (by omega))
  have hden : (0 : ℚ) < (d.den * Nat.pow 10 g.toNat : ℕ) := by exact_mod_cast hpos
  have hunit : (0 : ℚ) < 10 ^ g := zpow_pos (by norm_num) _
  rw [← le_div_iff₀ hunit, ← div_lt_iff₀ hunit, ← grid_quotient_ten, le_div_iff₀ hden,
    div_lt_iff₀ hden]
  constructor
  · exact_mod_cast Nat.div_mul_le_self _ _
  · exact_mod_cast Nat.lt_mul_of_div_lt (Nat.lt_succ_self _) hpos

/-- A point that is found on a grid reads back, and is one of the two around the magnitude. -/
theorem onGrid_eq_some {g : Int} (hx : d.onGrid? g = some x) :
    d.readsBack x = true ∧ x.exponent = g ∧ x.digits ≤ d.gridFloor g + 1 := by
  unfold onGrid? at hx
  simp only at hx
  split at hx
  · next hlow hhigh =>
    rw [Option.some.injEq] at hx
    subst hx
    rcases roundHalfEven_eq (d.num * Nat.pow 10 (-g).toNat) (d.den * Nat.pow 10 g.toNat) with
      hround | hround
    · refine ⟨?_, rfl, ?_⟩
      · rw [hround]
        exact hlow
      · exact Nat.le_of_eq hround |>.trans (Nat.le_succ _)
    · refine ⟨?_, rfl, Nat.le_of_eq hround⟩
      rw [hround]
      exact hhigh
  · next hlow _ =>
    rw [Option.some.injEq] at hx
    subst hx
    exact ⟨hlow, rfl, Nat.le_succ _⟩
  · next _ hhigh =>
    rw [Option.some.injEq] at hx
    subst hx
    exact ⟨hhigh, rfl, Nat.le_refl _⟩
  · simp at hx

theorem onGrid_eq_none {g : Int} (hx : d.onGrid? g = none) :
    d.readsBack ⟨d.gridFloor g, g⟩ = false ∧
      d.readsBack ⟨d.gridFloor g + 1, g⟩ = false := by
  unfold onGrid? at hx
  simp only at hx
  split at hx
  · simp at hx
  · simp at hx
  · simp at hx
  · next hlow hhigh => exact ⟨hlow, hhigh⟩

/-- The midpoints are at least three quarters of a unit apart, and four quarters unless the
significand is the least one. -/
theorem midpoints_apart (d : Double) (hpos : 0 < d.significand) :
    (d.significand = 2 ^ 52 ∧ d.lowerQuarters + 3 ≤ 4 * d.significand + 2) ∨
      d.lowerQuarters + 4 ≤ 4 * d.significand + 2 := by
  unfold lowerQuarters
  split
  · next hnarrow =>
    simp only [narrowBelow, Bool.and_eq_true, decide_eq_true_eq] at hnarrow
    exact Or.inl ⟨hnarrow.1, by omega⟩
  · exact Or.inr (by omega)

/-- If both points of a grid around the magnitude miss the interval of what reads back, the interval
lies between them. -/
theorem between_of_onGrid_eq_none (hpos : 0 < d.significand) {g : Int}
    (hnone : d.onGrid? g = none) :
    (d.gridFloor g : ℚ) * 10 ^ g ≤ d.lowerQuarters * d.quarter ∧
      (4 * d.significand + 2 : ℕ) * d.quarter ≤ (d.gridFloor g + 1 : ℕ) * 10 ^ g := by
  obtain ⟨hlow, hhigh⟩ := onGrid_eq_none hnone
  obtain ⟨hfloor, hceil⟩ := gridFloor_spec d g
  have hquarter := d.quarter_pos
  rw [d.magnitude_eq_quarter] at hfloor hceil
  constructor
  · refine (not_readsBack_bounds hlow).resolve_right fun habove => ?_
    have hle := habove.trans hfloor
    push_cast at hle
    linarith
  · refine (not_readsBack_bounds hhigh).resolve_left fun hbelow => ?_
    have hle : (d.lowerQuarters : ℚ) ≤ 4 * d.significand := by
      have hapart : d.lowerQuarters ≤ 4 * d.significand := by
        rcases midpoints_apart d hpos with ⟨_, h⟩ | h <;> omega
      exact_mod_cast hapart
    have hscaled := mul_le_mul_of_nonneg_right hle hquarter.le
    exact absurd (hceil.trans_le hbelow) (not_lt.mpr hscaled)

/-- Seventeen digits suffice. -/
theorem onGrid_seventeen (hvalid : d.Valid) (hpos : 0 < d.significand) :
    d.onGrid? (d.magnitudeOrder - 17) ≠ none := by
  intro hnone
  obtain ⟨hlow, hhigh⟩ := between_of_onGrid_eq_none hpos hnone
  obtain ⟨horder, _⟩ := magnitudeOrder_spec hvalid hpos
  obtain ⟨unit, hunit⟩ : ∃ unit : ℚ, unit = 10 ^ (d.magnitudeOrder - 17) := ⟨_, rfl⟩
  rw [← hunit] at hlow hhigh
  have hquarter := d.quarter_pos
  have hfine : unit * 10 ^ 16 ≤ 4 * d.significand * d.quarter := by
    rw [← d.magnitude_eq_quarter, hunit]
    refine le_trans (le_of_eq ?_) horder
    rw [← zpow_natCast, ← zpow_add₀ (by norm_num)]
    congr 1
    push_cast
    ring
  -- The interval is no wider than the grid.
  have hgap (k : ℕ) (hk : d.lowerQuarters + k ≤ 4 * d.significand + 2) :
      (k : ℚ) * d.quarter ≤ unit := by
    have hk' : (d.lowerQuarters : ℚ) + k ≤ (4 * d.significand + 2 : ℕ) := by exact_mod_cast hk
    have hscaled := mul_le_mul_of_nonneg_right hk' hquarter.le
    push_cast at hlow hhigh hscaled
    linarith
  rcases midpoints_apart d hpos with ⟨hleast, hapart⟩ | hapart
  · have hthree := hgap 3 hapart
    rw [hleast] at hfine
    push_cast at hthree hfine
    linarith
  · have hfour := hgap 4 hapart
    have hlt : (d.significand : ℚ) < 2 ^ 53 := by exact_mod_cast hvalid.significand_lt
    have hscaled := mul_lt_mul_of_pos_right hlt hquarter
    push_cast at hfour
    linarith

/-! ## The shortest decimal -/

/-- The definition at the level of functions; applied to a double it would be evaluated. -/
theorem shortest_eq : shortest = fun d =>
    match (List.range 17).findSome? fun (n : Nat) => d.onGrid? (d.magnitudeOrder - (n + 1)) with
    | some x => x.strip 17
    | none => ⟨d.num * Nat.pow 5 (-d.exponent).toNat, min d.exponent 0⟩ := rfl

/-- The shortest decimal is a point of one of the seventeen grids without its trailing zeros. -/
theorem exists_onGrid (hvalid : d.Valid) (hpos : 0 < d.significand) :
    ∃ (n : Nat) (y : Decimal), n < 17 ∧ d.onGrid? (d.magnitudeOrder - (n + 1)) = some y ∧
      d.shortest = y.strip 17 := by
  obtain ⟨f, hf⟩ : ∃ f : Nat → Option Decimal,
      f = fun (n : Nat) => d.onGrid? (d.magnitudeOrder - (n + 1)) := ⟨_, rfl⟩
  rw [shortest_eq]
  simp only [← hf]
  cases hy : (List.range 17).findSome? f with
  | none =>
    have hnone := List.findSome?_eq_none_iff.mp hy 16 (List.mem_range.mpr (by omega))
    rw [hf] at hnone
    simp only [show ((16 : ℕ) : ℤ) + 1 = 17 by norm_num] at hnone
    exact absurd hnone (onGrid_seventeen hvalid hpos)
  | some y =>
    obtain ⟨n, hn, hgrid⟩ := List.exists_of_findSome?_eq_some hy
    rw [hf] at hgrid
    exact ⟨n, y, List.mem_range.mp hn, hgrid, rfl⟩

theorem gridFloor_lt (hvalid : d.Valid) (hpos : 0 < d.significand) (n : Nat) :
    d.gridFloor (d.magnitudeOrder - (n + 1)) < 10 ^ (n + 1) := by
  obtain ⟨_, horder⟩ := magnitudeOrder_spec hvalid hpos
  obtain ⟨hfloor, _⟩ := gridFloor_spec d (d.magnitudeOrder - (n + 1))
  have hunit : (0 : ℚ) < 10 ^ (d.magnitudeOrder - (n + 1)) := zpow_pos (by norm_num) _
  have hsplit : (10 : ℚ) ^ d.magnitudeOrder =
      (10 ^ (n + 1) : ℕ) * 10 ^ (d.magnitudeOrder - (n + 1)) := by
    push_cast
    rw [← zpow_natCast, ← zpow_add₀ (by norm_num)]
    congr 1
    push_cast
    ring
  have hlt := lt_of_le_of_lt hfloor horder
  rw [hsplit] at hlt
  exact_mod_cast lt_of_mul_lt_mul_right hlt hunit.le

theorem shortest_spec (hvalid : d.Valid) (hpos : 0 < d.significand) :
    0 < d.shortest.digits ∧ d.shortest.digits ≤ 10 ^ 17 ∧
      d.lowerQuarters * d.quarter ≤ d.shortest.value ∧
      d.shortest.value ≤ (4 * d.significand + 2 : ℕ) * d.quarter := by
  obtain ⟨n, y, hn, hgrid, hshortest⟩ := exists_onGrid hvalid hpos
  obtain ⟨hreads, _, hdigits⟩ := onGrid_eq_some hgrid
  obtain ⟨hlow, hhigh⟩ := readsBack_bounds hreads
  obtain ⟨hvalue, hle, hkeeps, _⟩ := y.strip_spec 17
  have hquarters : 0 < d.lowerQuarters := by
    unfold lowerQuarters
    split <;> omega
  rw [hshortest]
  refine ⟨hkeeps ?_, hle.trans ?_, ?_, ?_⟩
  · -- A zero does not reach the lower midpoint.
    by_contra hzero
    have hdigits : y.digits = 0 := by omega
    rw [Decimal.value, hdigits, Nat.cast_zero, zero_mul] at hlow
    have : (0 : ℚ) < d.lowerQuarters * d.quarter :=
      mul_pos (by exact_mod_cast hquarters) d.quarter_pos
    linarith
  · calc y.digits ≤ d.gridFloor (d.magnitudeOrder - (n + 1)) + 1 := hdigits
      _ ≤ 10 ^ (n + 1) := gridFloor_lt hvalid hpos n
      _ ≤ 10 ^ 17 := Nat.pow_le_pow_right (by omega) (by omega)
  · rw [hvalue]
    exact hlow
  · rw [hvalue]
    exact hhigh

theorem magnitudeOrder_le (hvalid : d.Valid) (hpos : 0 < d.significand) :
    d.magnitudeOrder ≤ 512 := by
  by_contra hcontra
  have hten : (2 : ℚ) ^ (512 : ℤ) * 2 ^ (512 : ℤ) ≤ 10 ^ (d.magnitudeOrder - 1) := by
    calc (2 : ℚ) ^ (512 : ℤ) * 2 ^ (512 : ℤ) = 4 ^ (512 : ℤ) := by
          rw [← mul_zpow]
          norm_num
      _ ≤ 10 ^ (512 : ℤ) := zpow_le_zpow_left₀ (by norm_num) (by norm_num) (by norm_num)
      _ ≤ 10 ^ (d.magnitudeOrder - 1) := zpow_le_zpow_right₀ (by norm_num) (by omega)
  have hlt : d.magnitude < 2 ^ (512 : ℤ) * 2 ^ (512 : ℤ) := by
    rw [← zpow_add₀ two_ne_zero]
    refine lt_of_lt_of_le (magnitude_lt hvalid) (zpow_le_zpow_right₀ (by norm_num) ?_)
    have := hvalid.exponent_le
    simp only [maxExponent] at this
    omega
  exact absurd (hten.trans (magnitudeOrder_spec hvalid hpos).1) (not_le_of_gt hlt)

theorem shortest_exponent (hvalid : d.Valid) (hpos : 0 < d.significand) :
    -1000 ≤ d.shortest.exponent ∧ d.shortest.exponent ≤ 1000 := by
  obtain ⟨n, y, hn, hgrid, hshortest⟩ := exists_onGrid hvalid hpos
  obtain ⟨_, hexponent, _⟩ := onGrid_eq_some hgrid
  obtain ⟨_, _, _, hlow, hhigh⟩ := y.strip_spec 17
  have horder := magnitudeOrder_le hvalid hpos
  have hleast : -324 ≤ d.magnitudeOrder := by
    unfold magnitudeOrder
    omega
  rw [hshortest]
  omega

end Double

end EventHub.Numeric
