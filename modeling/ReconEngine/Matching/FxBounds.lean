import ReconEngine.Matching.Group

/-!
# The two cross-currency tests

The one-to-one stage compares two INR amounts by the quotient |a - b| / mean(a, b). The group stage
turns the same tolerance into integer bounds for a sum, so that the subset search can use them.

The bounds are exact: for a tolerance with four decimals, neither rounding of `fxBounds` reaches the
next integer. The quotient is exact up to its own rounding, which can bring a difference that is too
large down to the tolerance itself. That takes amounts beyond 2·10^21.

**The law** (`fxBounds_agree`): up to that limit, a sum lies within the bounds exactly when the
quotient test accepts it.

**What it does not establish.** That either test is the better one. Beyond the limit the quotient
accepts a sum that the bounds refuse, and `fxBounds_quotient_rounds` names one.
-/

set_option autoImplicit false

namespace Recon

open Numeric

/-! ## Rounding in the context -/

/-- A number of at most 28 digits is kept. -/
theorem rounded_of_int {m : Int} {e : Int} {x : Rat} (hm : |m| ≤ 10 ^ 28)
    (hx : x = m * (10 : Rat) ^ e) : rounded x = x :=
  roundDigits_of_representable (by decide) ⟨m, e, hm, hx⟩

/-- Rounding does not cross such a number. -/
theorem rounded_le {x r : Rat} {m e : Int} (hm : |m| ≤ 10 ^ 28) (hr : r = m * (10 : Rat) ^ e)
    (h : x ≤ r) : rounded x ≤ r :=
  roundDigits_le (by decide) ⟨m, e, hm, hr⟩ h

theorem le_rounded {x r : Rat} {m e : Int} (hm : |m| ≤ 10 ^ 28) (hr : r = m * (10 : Rat) ^ e)
    (h : r ≤ x) : r ≤ rounded x :=
  le_roundDigits (by decide) ⟨m, e, hm, hr⟩ h

/-- A quotient of integers is off by less than one part in its denominator. -/
theorem rounded_quotient_error {m k : Int} (hk : 0 < k) (hm : 0 ≤ m) (hsmall : m < 2 * 10 ^ 27) :
    |rounded ((m : Rat) / k) - m / k| < 1 / k := by
  have hk' : (0 : Rat) < k := by exact_mod_cast hk
  have hm' : (0 : Rat) ≤ m := by exact_mod_cast hm
  have hsmall' : (m : Rat) < 2 * 10 ^ 27 := by exact_mod_cast hsmall
  have herror := roundDigits_error contextPrecision ((m : Rat) / k)
  refine lt_of_le_of_lt herror ?_
  rw [abs_of_nonneg (div_nonneg hm' hk'.le), contextPrecision]
  norm_num
  rw [div_div, inv_eq_one_div, div_lt_div_iff₀ (by positivity) hk', one_mul]
  nlinarith

/-- A quotient is rounded on its own side of every integer, so its ceiling stays. -/
theorem ceil_rounded {m k : Int} (hk : 0 < k) (hm : 0 ≤ m) (hsmall : m < 2 * 10 ^ 27) :
    ⌈rounded ((m : Rat) / k)⌉ = ⌈(m : Rat) / k⌉ := by
  have hk' : (0 : Rat) < k := by exact_mod_cast hk
  have herror := abs_lt.mp (rounded_quotient_error hk hm hsmall)
  refine Int.ceil_eq_iff.mpr ⟨?_, ?_⟩
  · -- the quotient is at least one part above the integer before its ceiling
    have hceil : (⌈(m : Rat) / k⌉ - 1 : Int) < (m : Rat) / k := by
      have := Int.ceil_lt_add_one ((m : Rat) / k)
      push_cast
      linarith
    have hpart : ((⌈(m : Rat) / k⌉ - 1 : Int) : Rat) + 1 / k ≤ (m : Rat) / k := by
      rw [lt_div_iff₀ hk'] at hceil
      have hint : (⌈(m : Rat) / k⌉ - 1) * k + 1 ≤ m := by
        have : (⌈(m : Rat) / k⌉ - 1) * k < m := by exact_mod_cast hceil
        omega
      rw [le_div_iff₀ hk', add_mul, one_div_mul_cancel hk'.ne']
      exact_mod_cast hint
    push_cast at hpart
    linarith [herror.1]
  · refine rounded_le (m := ⌈(m : Rat) / k⌉) (e := 0) ?_ (by simp) (Int.le_ceil _)
    have hnonneg : 0 ≤ ⌈(m : Rat) / k⌉ := Int.ceil_nonneg (div_nonneg (by exact_mod_cast hm) hk'.le)
    have hle : ⌈(m : Rat) / k⌉ ≤ m := by
      refine Int.ceil_le.mpr ((div_le_iff₀ hk').mpr ?_)
      have : (1 : Rat) ≤ k := by exact_mod_cast hk
      exact le_mul_of_one_le_right (by exact_mod_cast hm) this
    rw [abs_of_nonneg hnonneg]
    omega

theorem floor_rounded {m k : Int} (hk : 0 < k) (hm : 0 ≤ m) (hsmall : m < 2 * 10 ^ 27) :
    ⌊rounded ((m : Rat) / k)⌋ = ⌊(m : Rat) / k⌋ := by
  have hk' : (0 : Rat) < k := by exact_mod_cast hk
  have herror := abs_lt.mp (rounded_quotient_error hk hm hsmall)
  have hnonneg : 0 ≤ ⌊(m : Rat) / k⌋ := Int.floor_nonneg.mpr (div_nonneg (by exact_mod_cast hm) hk'.le)
  refine Int.floor_eq_iff.mpr ⟨?_, ?_⟩
  · refine le_rounded (m := ⌊(m : Rat) / k⌋) (e := 0) ?_ (by simp) (Int.floor_le _)
    have hle : ⌊(m : Rat) / k⌋ ≤ m := by
      have hone : (1 : Rat) ≤ k := by exact_mod_cast hk
      have := (Int.floor_le ((m : Rat) / k)).trans
        ((div_le_iff₀ hk').mpr (le_mul_of_one_le_right (by exact_mod_cast hm) hone))
      exact_mod_cast this
    rw [abs_of_nonneg hnonneg]
    omega
  · have hpart : (m : Rat) / k + 1 / k ≤ (⌊(m : Rat) / k⌋ : Rat) + 1 := by
      have hfloor := Int.lt_floor_add_one ((m : Rat) / k)
      rw [div_lt_iff₀ hk'] at hfloor
      have hint : m + 1 ≤ (⌊(m : Rat) / k⌋ + 1) * k := by
        have : m < (⌊(m : Rat) / k⌋ + 1) * k := by exact_mod_cast hfloor
        omega
      rw [← add_div, div_le_iff₀ hk']
      exact_mod_cast hint
    linarith [herror.2]

/-! ## The bounds -/

/-- A tolerance percentage with four decimals, as a fraction of 10^6 parts. -/
structure FourDecimals (p : Rat) (n : Int) : Prop where
  value : p = n / 10000
  positive : 0 < n
  below : n < 2000000

section

variable {p : Rat} {n target sum : Int}

theorem tolerance_ratio (hp : FourDecimals p n) : rounded (p / 100) = n / 1000000 := by
  have hvalue : p / 100 = n / 1000000 := by
    rw [hp.value]
    ring
  rw [hvalue]
  have := hp.positive
  have := hp.below
  refine rounded_of_int (m := n) (e := -6) (abs_le.mpr ⟨by omega, by omega⟩) ?_
  norm_num [zpow_neg]
  ring

/-- The bounds are those of exact arithmetic. -/
theorem fxBounds_exact (hp : FourDecimals p n) (ht : 0 < target) (hmax : target < 2 ^ 63) :
    fxBounds p target =
      .ok (⌈((target * (2000000 - n) : Int) : Rat) / (2000000 + n : Int)⌉,
        ⌊((target * (2000000 + n) : Int) : Rat) / (2000000 - n : Int)⌋) := by
  have hpos := hp.positive
  have hbelow := hp.below
  have hsub : rounded (2 - (n : Rat) / 1000000) = ((2000000 - n : Int) : Rat) / 1000000 := by
    have hvalue : 2 - (n : Rat) / 1000000 = ((2000000 - n : Int) : Rat) / 1000000 := by
      push_cast
      ring
    rw [hvalue]
    refine rounded_of_int (m := 2000000 - n) (e := -6) (abs_le.mpr ⟨by omega, by omega⟩) ?_
    norm_num [zpow_neg]
    ring
  have hadd : rounded (2 + (n : Rat) / 1000000) = ((2000000 + n : Int) : Rat) / 1000000 := by
    have hvalue : 2 + (n : Rat) / 1000000 = ((2000000 + n : Int) : Rat) / 1000000 := by
      push_cast
      ring
    rw [hvalue]
    refine rounded_of_int (m := 2000000 + n) (e := -6) (abs_le.mpr ⟨by omega, by omega⟩) ?_
    norm_num [zpow_neg]
    ring
  -- a product of the target and one of the factors has at most 26 digits
  have hproduct : ∀ k : Int, 0 < k → k < 4000000 →
      rounded ((target : Rat) * ((k : Rat) / 1000000)) = ((target * k : Int) : Rat) / 1000000 := by
    intro k hk hk'
    have hle : target * k ≤ 2 ^ 63 * 4000000 :=
      mul_le_mul hmax.le hk'.le hk.le (by norm_num)
    have hnonneg : 0 ≤ target * k := mul_nonneg ht.le hk.le
    have hvalue : (target : Rat) * ((k : Rat) / 1000000) = ((target * k : Int) : Rat) / 1000000 := by
      push_cast
      ring
    rw [hvalue]
    refine rounded_of_int (m := target * k) (e := -6) (abs_le.mpr ⟨by omega, by omega⟩) ?_
    norm_num [zpow_neg]
    ring
  have hne : ∀ k : Int, 0 < k → ((k : Rat) / 1000000) ≠ 0 := by
    intro k hk
    have : (k : Rat) ≠ 0 := by exact_mod_cast hk.ne'
    positivity
  have hquotient : ∀ m k : Int, 0 < k →
      ((m : Rat) / 1000000) / ((k : Rat) / 1000000) = (m : Rat) / k := by
    intro m k hk
    have : (k : Rat) ≠ 0 := by exact_mod_cast hk.ne'
    field_simp
  have hsmall : ∀ k : Int, 0 < k → k < 4000000 → target * k < 2 * 10 ^ 27 := by
    intro k hk hk'
    have hle : target * k ≤ 2 ^ 63 * 4000000 :=
      mul_le_mul hmax.le hk'.le hk.le (by norm_num)
    omega
  unfold fxBounds
  dsimp only
  rw [tolerance_ratio hp, hsub, hadd, if_neg (by
      rintro (h | h)
      · exact hne _ (by omega) h
      · exact hne _ (by omega) h),
    hproduct _ (by omega) (by omega), hproduct _ (by omega) (by omega),
    hquotient _ _ (by omega), hquotient _ _ (by omega),
    ceil_rounded (by omega) (mul_nonneg ht.le (by omega)) (hsmall _ (by omega) (by omega)),
    floor_rounded (by omega) (mul_nonneg ht.le (by omega)) (hsmall _ (by omega) (by omega))]

/-- Between the bounds is within the tolerance, in integers. -/
theorem within_bounds_iff (hp : FourDecimals p n) :
    (⌈((target * (2000000 - n) : Int) : Rat) / (2000000 + n : Int)⌉ ≤ sum ∧
        sum ≤ ⌊((target * (2000000 + n) : Int) : Rat) / (2000000 - n : Int)⌋) ↔
      2000000 * |target - sum| ≤ n * (target + sum) := by
  have hpos := hp.positive
  have hbelow := hp.below
  have habove : (0 : Rat) < ((2000000 + n : Int) : Rat) := by exact_mod_cast (by omega)
  have hunder : (0 : Rat) < ((2000000 - n : Int) : Rat) := by exact_mod_cast (by omega)
  rw [Int.ceil_le, Int.le_floor, div_le_iff₀ habove, le_div_iff₀ hunder]
  have hlow : ((target * (2000000 - n) : Int) : Rat) ≤ sum * (2000000 + n : Int) ↔
      target * (2000000 - n) ≤ sum * (2000000 + n) := by exact_mod_cast Iff.rfl
  have hhigh : (sum : Rat) * (2000000 - n : Int) ≤ ((target * (2000000 + n) : Int) : Rat) ↔
      sum * (2000000 - n) ≤ target * (2000000 + n) := by exact_mod_cast Iff.rfl
  rw [hlow, hhigh]
  constructor
  · rintro ⟨h₁, h₂⟩
    rcases abs_cases (target - sum) with ⟨h, -⟩ | ⟨h, -⟩ <;> rw [h] <;> nlinarith
  · intro h
    have h₁ := le_abs_self (target - sum)
    have h₂ := neg_abs_le (target - sum)
    constructor <;> nlinarith

/-! ## The quotient -/

/-- Up to the rounding of the quotient, the percentage is exact. -/
theorem relativeDifference_exact (ht : 0 < target) (hs : 0 ≤ sum)
    (hsmall : target + sum ≤ 10 ^ 27) :
    relativeDifferencePercent target sum =
      rounded ((2 * |target - sum| : Int) / ((target + sum : Int) : Rat)) * 100 := by
  have hsum : (0 : Rat) < ((target + sum : Int) : Rat) := by exact_mod_cast (by omega)
  have hmean : rounded (((target + sum : Int) : Rat) / 2) = ((target + sum : Int) : Rat) / 2 := by
    refine rounded_of_int (m := 5 * (target + sum)) (e := -1) (abs_le.mpr ⟨by omega, by omega⟩) ?_
    push_cast
    norm_num [zpow_neg]
    ring
  have habs : rounded |((target - sum : Int) : Rat)| = ((|target - sum| : Int) : Rat) := by
    rw [← Int.cast_abs]
    refine rounded_of_int (m := |target - sum|) (e := 0) ?_ (by simp)
    rw [abs_abs]
    exact abs_le.mpr ⟨by omega, by omega⟩
  have hquotient : ((|target - sum| : Int) : Rat) / (((target + sum : Int) : Rat) / 2) =
      (2 * |target - sum| : Int) / ((target + sum : Int) : Rat) := by
    push_cast
    field_simp
  unfold relativeDifferencePercent
  dsimp only
  rw [hmean, if_neg (by positivity), habs, hquotient]
  have hhundred : ((100 : Rat)) = 10 ^ (2 : Int) := by norm_num
  have hkept : ∀ y, rounded (rounded y * 100) = rounded y * 100 := by
    intro y
    refine roundDigits_of_representable (by decide) ?_
    rw [hhundred]
    exact (representable_roundDigits contextPrecision y).shift 2
  exact hkept _

theorem tolerance_representable (hp : FourDecimals p n) :
    Representable contextPrecision ((n : Rat) / 1000000) := by
  have := hp.positive
  have := hp.below
  refine ⟨n, -6, abs_le.mpr ⟨by norm_num [contextPrecision]; omega,
    by norm_num [contextPrecision]; omega⟩, ?_⟩
  norm_num [zpow_neg]
  ring

/-- A percentage compared with the tolerance, as a ratio. -/
theorem percent_le_iff (hp : FourDecimals p n) (y : Rat) : y * 100 ≤ p ↔ y ≤ n / 1000000 := by
  rw [hp.value]
  constructor <;> intro h <;> linarith

theorem ratio_le_iff (hsum : 0 < target + sum) :
    ((2 * |target - sum| : Int) : Rat) / ((target + sum : Int) : Rat) ≤ n / 1000000 ↔
      2000000 * |target - sum| ≤ n * (target + sum) := by
  have hsum' : (0 : Rat) < ((target + sum : Int) : Rat) := by exact_mod_cast hsum
  rw [div_le_div_iff₀ hsum' (by norm_num)]
  constructor
  · intro h
    have h' : 2 * |target - sum| * 1000000 ≤ n * (target + sum) := by exact_mod_cast h
    linarith
  · intro h
    have h' : 2 * |target - sum| * 1000000 ≤ n * (target + sum) := by linarith
    exact_mod_cast h'

/-- Up to 2·10^21 the rounding of the quotient does not reach the tolerance from above. -/
theorem ratio_le_of_rounded (ht : 0 < target) (hs : 0 ≤ sum)
    (hsmall : target + sum ≤ 2 * 10 ^ 21)
    (h : rounded ((2 * |target - sum| : Int) / ((target + sum : Int) : Rat)) ≤ n / 1000000) :
    2000000 * |target - sum| ≤ n * (target + sum) := by
  have hsum : (0 : Rat) < ((target + sum : Int) : Rat) := by exact_mod_cast (by omega)
  by_contra hlt
  rw [not_le] at hlt
  -- the excess over the tolerance, in parts of 10^6 * (target + sum)
  have hgap : n * (target + sum) + 1 ≤ 2000000 * |target - sum| ∧
      (target + sum = 2 * 10 ^ 21 → n * (target + sum) + 2 ≤ 2000000 * |target - sum|) := by
    refine ⟨hlt, fun heq => ?_⟩
    rw [heq] at hlt ⊢
    omega
  have hbound : |((2 * |target - sum| : Int) : Rat) / ((target + sum : Int) : Rat)| < 10 ^ (1 : Int) := by
    have hle : |target - sum| ≤ target + sum := abs_le.mpr ⟨by omega, by omega⟩
    have habs := abs_nonneg (target - sum)
    rw [abs_of_nonneg (div_nonneg (by exact_mod_cast (by omega)) hsum.le), div_lt_iff₀ hsum, zpow_one]
    have : 2 * |target - sum| < 10 * (target + sum) := by omega
    exact_mod_cast this
  have herror := (abs_le.mp (roundDigits_error_of_lt contextPrecision hbound)).1
  change rounded _ ≤ _ at h
  change -_ ≤ rounded _ - _ at herror
  have hx : ((2 * |target - sum| : Int) : Rat) / ((target + sum : Int) : Rat) ≤
      n / 1000000 + 10 ^ ((1 : Int) - contextPrecision) / 2 := by linarith
  rw [div_le_iff₀ hsum] at hx
  have hunit : (10 : Rat) ^ ((1 : Int) - contextPrecision) = 1 / 10 ^ 27 := by
    norm_num [contextPrecision]
  rw [hunit] at hx
  have hscaled : 2000000 * (|target - sum| : Int) * (10 ^ 21 : Int) * 2 ≤
      n * (target + sum) * 10 ^ 21 * 2 + (target + sum) := by
    have : ((2000000 * (|target - sum| : Int) * (10 ^ 21 : Int) * 2 : Int) : Rat) ≤
        ((n * (target + sum) * 10 ^ 21 * 2 + (target + sum) : Int) : Rat) := by
      push_cast at hx ⊢
      linarith
    exact_mod_cast this
  rcases eq_or_lt_of_le hsmall with heq | hless
  · have := hgap.2 heq
    rw [heq] at this hscaled
    omega
  · have := hgap.1
    generalize n * (target + sum) = a at *
    omega

/-- **The two tests agree.** A sum between the bounds is within the tolerance of the one-to-one
stage, and as long as the amounts do not exceed 2·10^21 together the converse holds. -/
theorem fxBounds_agree (hdecimals : ∃ n : Int, p = n / 10000) (hpos : 0 < p) (hlt : p < 200)
    (ht : 0 < target) (hmax : target ≤ 2 ^ 63 - 1) (hs : 0 ≤ sum) :
    ∃ low high, fxBounds p target = .ok (low, high) ∧
      (low ≤ sum ∧ sum ≤ high → relativeDifferencePercent target sum ≤ p) ∧
      (target + sum ≤ 2 * 10 ^ 21 → relativeDifferencePercent target sum ≤ p →
        low ≤ sum ∧ sum ≤ high) := by
  obtain ⟨n, hn⟩ := hdecimals
  have hp : FourDecimals p n := by
    refine ⟨hn, ?_, ?_⟩
    · rw [hn] at hpos
      have : (0 : Rat) < n := by linarith
      exact_mod_cast this
    · rw [hn] at hlt
      have : (n : Rat) < 2000000 := by linarith
      exact_mod_cast this
  have hnpos := hp.positive
  have hnbelow := hp.below
  refine ⟨_, _, fxBounds_exact hp ht (by omega), ?_, ?_⟩
  · intro hin
    rw [within_bounds_iff hp] at hin
    -- a sum within the bounds is less than 4·10^6 times the target
    have hsum : target + sum ≤ 10 ^ 27 := by
      have h := neg_abs_le (target - sum)
      have : sum * (2000000 - n) ≤ target * (2000000 + n) := by nlinarith
      nlinarith
    rw [relativeDifference_exact ht hs hsum, percent_le_iff hp]
    exact roundDigits_le (by decide) (tolerance_representable hp)
      ((ratio_le_iff (by omega)).mpr hin)
  · intro hsmall hle
    rw [relativeDifference_exact ht hs (by omega), percent_le_iff hp] at hle
    rw [within_bounds_iff hp]
    exact ratio_le_of_rounded ht hs hsmall hle

end

/-- Ten percent of 1000 paise either way, and three on top. -/
theorem fxBounds_agree_tenPercent :
    relativeDifferencePercent 1000 1100 ≤ 10 ∧ ¬ relativeDifferencePercent 1000 1108 ≤ 10 := by
  have hten : ∃ n : Int, (10 : Rat) = n / 10000 := ⟨100000, by norm_num⟩
  have hbounds : fxBounds 10 1000 = .ok (905, 1105) := by decide +kernel
  constructor
  · obtain ⟨low, high, h, hin, -⟩ := fxBounds_agree hten (by norm_num) (by norm_num)
      (by decide : (0 : Int) < 1000) (by decide) (by decide : (0 : Int) ≤ 1100)
    cases hbounds.symm.trans h
    exact hin (by decide)
  · intro hle
    obtain ⟨low, high, h, -, hout⟩ := fxBounds_agree hten (by norm_num) (by norm_num)
      (by decide : (0 : Int) < 1000) (by decide) (by decide : (0 : Int) ≤ 1108)
    cases hbounds.symm.trans h
    exact absurd (hout (by decide) hle) (by decide)

/-- One unit beyond: the sum is above the upper bound, and its relative difference rounds to the
tolerance. -/
theorem fxBounds_quotient_rounds :
    ∃ low high, fxBounds (1999999 / 10000) 500000000000000 = .ok (low, high) ∧
      ¬ ((low ≤ 1999999500000000000001 ∧ 1999999500000000000001 ≤ high) ↔
        relativeDifferencePercent 500000000000000 1999999500000000000001 ≤ 1999999 / 10000) := by
  refine ⟨125000032, 1999999500000000000000, by decide +kernel, ?_⟩
  have hle : relativeDifferencePercent 500000000000000 1999999500000000000001 ≤
      1999999 / 10000 := by decide +kernel
  exact fun h => absurd (h.mpr hle).2 (by decide)

end Recon
