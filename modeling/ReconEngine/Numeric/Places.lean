import ReconEngine.Numeric.Rounding

/-!
# Decimals of so many places

What sums, differences and halves of decimals need, and when a number of digits holds them.

**The law of quotients** (`lt_roundDigits_div_iff`): a quotient of two decimals that is rounded to
enough digits is more than a percentage exactly if the exact quotient is. Two quotients with small
denominators are not so close that rounding joins them.

**What it does not establish.** The percentage is a whole one; for a percentage with places of its
own the denominators grow, and more digits are needed.
-/

set_option autoImplicit false

namespace Numeric

/-- A decimal of at most so many places. -/
def HasPlaces (places : Nat) (x : Rat) : Prop := ∃ n : Int, x = n / 10 ^ places

section

variable {places : Nat} {x y : Rat}

theorem HasPlaces.add (hx : HasPlaces places x) (hy : HasPlaces places y) :
    HasPlaces places (x + y) := by
  obtain ⟨n, rfl⟩ := hx
  obtain ⟨m, rfl⟩ := hy
  exact ⟨n + m, by push_cast; ring⟩

theorem HasPlaces.sub (hx : HasPlaces places x) (hy : HasPlaces places y) :
    HasPlaces places (x - y) := by
  obtain ⟨n, rfl⟩ := hx
  obtain ⟨m, rfl⟩ := hy
  exact ⟨n - m, by push_cast; ring⟩

theorem HasPlaces.abs (hx : HasPlaces places x) : HasPlaces places |x| := by
  obtain ⟨n, rfl⟩ := hx
  refine ⟨|n|, ?_⟩
  rw [abs_div, abs_of_pos (by positivity : (0 : Rat) < 10 ^ places)]
  push_cast
  rfl

theorem HasPlaces.succ (hx : HasPlaces places x) : HasPlaces (places + 1) x := by
  obtain ⟨n, rfl⟩ := hx
  refine ⟨10 * n, ?_⟩
  rw [pow_succ]
  push_cast
  field_simp

/-- A half takes one place more. -/
theorem HasPlaces.half (hx : HasPlaces places x) : HasPlaces (places + 1) (x / 2) := by
  obtain ⟨n, rfl⟩ := hx
  refine ⟨5 * n, ?_⟩
  rw [pow_succ]
  push_cast
  field_simp
  ring

/-- The digits before the point and the places. -/
theorem HasPlaces.representable (hx : HasPlaces places x) {digits whole : Nat}
    (hsize : |x| ≤ 10 ^ whole) (hdigits : whole + places ≤ digits) : Representable digits x := by
  obtain ⟨n, rfl⟩ := hx
  have hunit : (0 : Rat) < 10 ^ places := by positivity
  refine ⟨n, -(places : Int), ?_, ?_⟩
  · rw [abs_div, abs_of_pos hunit, div_le_iff₀ hunit, ← pow_add] at hsize
    have hle : |n| ≤ (10 : Int) ^ (whole + places) := by exact_mod_cast hsize
    exact hle.trans (pow_le_pow_right₀ (by norm_num) hdigits)
  · rw [zpow_neg, zpow_natCast]
    rfl

/-- A quotient above a percentage is above it by no less than its denominator allows. -/
theorem HasPlaces.div_gap {percent whole : Nat} (hx : HasPlaces places x) (hy : HasPlaces places y)
    (hpos : 0 < y) (hsize : y ≤ 10 ^ whole) (h : (percent : Rat) / 100 < x / y) :
    (percent : Rat) / 100 + 1 / (100 * 10 ^ (whole + places)) ≤ x / y := by
  obtain ⟨n, rfl⟩ := hx
  obtain ⟨m, rfl⟩ := hy
  have hunit : (0 : Rat) < 10 ^ places := by positivity
  have hm : (0 : Rat) < m := (div_pos_iff_of_pos_right hunit).mp hpos
  rw [div_div_div_cancel_right₀ hunit.ne'] at h ⊢
  rw [div_le_iff₀ hunit, ← pow_add] at hsize
  have hless : percent * m + 1 ≤ 100 * n := by
    rw [div_lt_div_iff₀ (by norm_num) hm] at h
    have hcast : percent * m < n * 100 := by exact_mod_cast h
    omega
  have hless' : (percent : Rat) * m + 1 ≤ 100 * n := by exact_mod_cast hless
  have hgap : 1 / (100 * 10 ^ (whole + places) : Rat) ≤ 1 / (100 * m) := by
    apply one_div_le_one_div_of_le (by positivity)
    linarith
  calc (percent : Rat) / 100 + 1 / (100 * 10 ^ (whole + places))
      ≤ percent / 100 + 1 / (100 * m) := by linarith
    _ = (percent * m + 1) / (100 * m) := by field_simp
    _ ≤ 100 * n / (100 * m) := by
        apply div_le_div_of_nonneg_right hless' (by positivity)
    _ = n / m := by field_simp

/-- **The law of quotients.** With enough digits, a rounded quotient is more than a percentage exactly
if the exact one is. -/
theorem lt_roundDigits_div_iff (digits percent : Nat) {whole : Nat} (hx : HasPlaces places x)
    (hy : HasPlaces places y) (hpos : 0 < y) (hsize : y ≤ 10 ^ whole) (hdigits : 1 ≤ digits)
    (hpercent : percent * 10 ^ (whole + places) + 1 ≤ 10 ^ digits) :
    (percent : Rat) / 100 < roundDigits digits (x / y) ↔ (percent : Rat) / 100 < x / y := by
  constructor
  · intro h
    by_contra hle
    have hkept : Representable digits ((percent : Rat) / 100) := by
      refine ⟨percent, -2, ?_, ?_⟩
      · have hbound : percent ≤ percent * 10 ^ (whole + places) :=
          Nat.le_mul_of_pos_right _ (by positivity)
        have hnat : percent ≤ 10 ^ digits := by omega
        rw [Nat.abs_cast]
        exact_mod_cast hnat
      · norm_num
        ring
    exact absurd (roundDigits_le hdigits hkept (not_lt.mp hle)) (not_le.mpr h)
  · intro h
    -- The least quotient that is above the percentage is kept.
    have hkept : Representable digits
        ((percent : Rat) / 100 + 1 / (100 * 10 ^ (whole + places))) := by
      refine ⟨percent * 10 ^ (whole + places) + 1, -((whole + places + 2 : Nat) : Int), ?_, ?_⟩
      · rw [abs_of_nonneg (by positivity)]
        exact_mod_cast hpercent
      · rw [zpow_neg, zpow_natCast, pow_add _ _ 2]
        push_cast
        field_simp
        norm_num
    have hgap : (0 : Rat) < 1 / (100 * 10 ^ (whole + places)) := by positivity
    have hkeeps := le_roundDigits hdigits hkept (hx.div_gap hy hpos hsize h)
    linarith

end

end Numeric
