import ReconEngine.Numeric.Rounding
import Mathlib.Tactic.LinearCombination

/-!
# Rounding twice

A value is first rounded at some decimal place and then to an integer, half to even both times.
`RoundsOnce` says at which values the first rounding does no harm, and `halfEven_roundTo_iff` that
these are all of them.

A place below the unit does harm just beyond a half: the first rounding moves the value onto the
half, and the second one takes the even neighbour, which is the farther one. A place above the unit
does harm unless the value is within a half of a multiple of that place.

**What it does not establish.** How often a value of the harmful kind occurs, or how far off two
roundings are. Other modes of rounding have other values.
-/

set_option autoImplicit false

namespace Numeric

/-! ## Where it is harmless -/

/-- `x` is beyond a half of the even integer `n`, and `10 ^ e` is too coarse a place to tell. Exactly
between two values of the place, the one that ends in an even digit is taken; a half ends in 5 at the
place of tenths and in 0 at the finer ones. -/
structure JustBeyond (e : Int) (x : Rat) (n : Int) : Prop where
  even : Even n
  beyond : 1 / 2 < |x - n|
  just : |x - n| < (1 + (10 : Rat) ^ e) / 2 ∨ |x - n| = (1 + (10 : Rat) ^ e) / 2 ∧ e ≠ -1

/-- Rounding at the place of `10 ^ e` first does not change what `x` is rounded to. -/
structure RoundsOnce (e : Int) (x : Rat) : Prop where
  below : e < 0 → ∀ n, ¬ JustBeyond e x n
  above : 0 < e → ∃ m : Int, |x - m * (10 : Rat) ^ e| ≤ 1 / 2

section

variable {e : Int} {x : Rat}

/-! ### A place above the unit -/

theorem pow_above (he : 0 < e) : ∃ k : Nat, (10 : Rat) ^ e = ((10 * 10 ^ k : Int) : Rat) := by
  obtain ⟨k, hk⟩ := Int.eq_ofNat_of_zero_le (show 0 ≤ e - 1 by omega)
  refine ⟨k, ?_⟩
  rw [show e = k + 1 by omega, zpow_add_one₀ (by norm_num), zpow_natCast]
  push_cast
  ring

/-- Rounding at a place above the unit is harmless near its multiples. -/
theorem halfEven_roundTo_above (he : 0 < e) :
    halfEven (roundTo e x) = halfEven x ↔ ∃ m : Int, |x - m * (10 : Rat) ^ e| ≤ 1 / 2 := by
  obtain ⟨k, hk⟩ := pow_above he
  have heven : ∀ m : Int, Even (m * (10 * 10 ^ k)) := fun m =>
    (Even.mul_right (by decide) _).mul_left m
  have hunit : (10 : Rat) ≤ ((10 * 10 ^ k : Int) : Rat) := by
    have : (1 : Int) ≤ 10 ^ k := one_le_pow₀ (by norm_num)
    exact_mod_cast (by omega : (10 : Int) ≤ 10 * 10 ^ k)
  have hcast : ∀ m : Int, (m : Rat) * (10 : Rat) ^ e = ((m * (10 * 10 ^ k) : Int) : Rat) := by
    intro m
    rw [hk]
    push_cast
    ring
  rw [roundTo, hcast, halfEven_intCast]
  constructor
  · intro h
    refine ⟨halfEven (x / 10 ^ e), ?_⟩
    rw [hcast, h, abs_sub_comm]
    exact halfEven_error x
  · rintro ⟨m, hm⟩
    have hpos : (0 : Rat) < 10 ^ e := by positivity
    -- The multiple is far nearer to `x` than half the place.
    have hnear : halfEven (x / 10 ^ e) = m := by
      refine halfEven_eq_iff.mpr (.inl ?_)
      have hsplit : x / 10 ^ e - m = (x - m * 10 ^ e) / 10 ^ e := by
        field_simp
      have hlarge : (10 : Rat) ≤ 10 ^ e := hk ▸ hunit
      rw [hsplit, abs_div, abs_of_pos hpos, div_lt_iff₀ hpos]
      linarith
    rw [hcast] at hm
    rw [hnear, halfEven_eq_of_even (heven m) hm]

/-! ### A place below the unit

A half is `half` units of the place, and an integer `n` is `n * (2 * half)` of them. -/

theorem pow_below (he : e < 0) :
    ∃ half : Int, 0 < half ∧ (half : Rat) * (10 : Rat) ^ e = 1 / 2 ∧ (e = -1 ↔ Odd half) := by
  obtain ⟨k, hk⟩ := Int.eq_ofNat_of_zero_le (show 0 ≤ -1 - e by omega)
  refine ⟨5 * 10 ^ k, by positivity, ?_, ?_⟩
  · rw [show e = -1 - k by omega, zpow_sub₀ (by norm_num), zpow_natCast]
    push_cast
    field_simp
    norm_num
  · cases k with
    | zero => exact ⟨fun _ => by decide, fun _ => by omega⟩
    | succ k =>
      refine ⟨fun h => by omega, fun h => ?_⟩
      rw [pow_succ] at h
      exact absurd h (Int.not_odd_iff_even.mpr (((by decide : Even (10 : Int)).mul_left _).mul_left _))

/-- Distances in units of the place. -/
theorem abs_sub_eq_units {half : Int} (hhalf : (half : Rat) * (10 : Rat) ^ e = 1 / 2) (n : Int) :
    |x - n| = |x / (10 : Rat) ^ e - (n * (2 * half) : Int)| * (10 : Rat) ^ e := by
  have hunit : (0 : Rat) < 10 ^ e := by positivity
  have hn : (n : Rat) = (n * (2 * half) : Int) * (10 : Rat) ^ e := by
    push_cast
    linear_combination (-2 * (n : Rat)) * hhalf
  rw [← abs_of_pos hunit, ← abs_mul, abs_of_pos hunit, sub_mul, ← hn,
    div_mul_cancel₀ x hunit.ne']

/-- The harmful values, in units of the place. -/
theorem justBeyond_iff {half : Int} (hhalf : (half : Rat) * (10 : Rat) ^ e = 1 / 2)
    (hodd : e = -1 ↔ Odd half) (n : Int) :
    JustBeyond e x n ↔ Even n ∧ (half : Rat) < |x / (10 : Rat) ^ e - (n * (2 * half) : Int)| ∧
      (|x / (10 : Rat) ^ e - (n * (2 * half) : Int)| < half + 1 / 2 ∨
        |x / (10 : Rat) ^ e - (n * (2 * half) : Int)| = half + 1 / 2 ∧ Even half) := by
  have hunit : (0 : Rat) < 10 ^ e := by positivity
  have hbound : (1 + (10 : Rat) ^ e) / 2 = (half + 1 / 2) * 10 ^ e := by
    linear_combination -hhalf
  have heven : e ≠ -1 ↔ Even half := by rw [Ne, hodd, Int.not_odd_iff_even]
  constructor
  · rintro ⟨hn, hbeyond, hjust⟩
    rw [abs_sub_eq_units hhalf] at hbeyond hjust
    rw [← hhalf] at hbeyond
    rw [hbound, heven] at hjust
    exact ⟨hn, lt_of_mul_lt_mul_right hbeyond hunit.le,
      hjust.imp (lt_of_mul_lt_mul_right · hunit.le)
        (And.imp_left (mul_right_cancel₀ hunit.ne'))⟩
  · rintro ⟨hn, hbeyond, hjust⟩
    refine ⟨hn, ?_, ?_⟩
    · rw [abs_sub_eq_units hhalf, ← hhalf]
      exact mul_lt_mul_of_pos_right hbeyond hunit
    · rw [abs_sub_eq_units hhalf, hbound, heven]
      exact hjust.imp (mul_lt_mul_of_pos_right · hunit) (And.imp_left (congrArg (· * _)))

/-- Just beyond a half, the first rounding gives the half. -/
theorem JustBeyond.halfEven_roundTo {n : Int} (he : e < 0) (h : JustBeyond e x n) :
    halfEven (roundTo e x) = n := by
  obtain ⟨half, hpos, hhalf, hodd⟩ := pow_below he
  obtain ⟨hn, hbeyond, hjust⟩ := (justBeyond_iff hhalf hodd n).mp h
  have hunit : (0 : Rat) < 10 ^ e := by positivity
  -- The half is on the side of `n` that `x` is on.
  obtain ⟨side, hside, hdistance⟩ : ∃ side : Int, |side| = 1 ∧
      |x / (10 : Rat) ^ e - ((n * (2 * half) + side * half : Int) : Rat)| =
        |x / (10 : Rat) ^ e - (n * (2 * half) : Int)| - half := by
    rcases le_total 0 (x / (10 : Rat) ^ e - (n * (2 * half) : Int)) with hle | hle
    · refine ⟨1, rfl, ?_⟩
      rw [abs_of_nonneg hle] at hbeyond ⊢
      push_cast at hbeyond ⊢
      rw [abs_of_nonneg (by linarith)]
      ring
    · refine ⟨-1, rfl, ?_⟩
      rw [abs_of_nonpos hle] at hbeyond ⊢
      push_cast at hbeyond ⊢
      rw [abs_of_nonpos (by linarith)]
      ring
  have hround : halfEven (x / (10 : Rat) ^ e) = n * (2 * half) + side * half := by
    refine halfEven_eq_iff.mpr ?_
    rcases hjust with hlt | ⟨heq, heven⟩
    · exact .inl (by rw [hdistance]; linarith)
    · refine .inr ⟨by rw [hdistance, heq]; ring, ?_⟩
      exact (hn.mul_right _).add (heven.mul_left _)
  refine halfEven_eq_of_even hn ?_
  rw [roundTo, hround]
  have hgap : ((n * (2 * half) + side * half : Int) : Rat) * 10 ^ e - n = side * (1 / 2) := by
    push_cast
    linear_combination (2 * (n : Rat) + side) * hhalf
  rw [hgap, abs_mul, ← Int.cast_abs, hside]
  norm_num

/-- The first rounding does no harm anywhere else. -/
theorem justBeyond_of_ne (he : e < 0) (h : halfEven (roundTo e x) ≠ halfEven x) :
    JustBeyond e x (halfEven (roundTo e x)) := by
  obtain ⟨half, hpos, hhalf, hodd⟩ := pow_below he
  have hunit : (0 : Rat) < 10 ^ e := by positivity
  rw [justBeyond_iff hhalf hodd]
  have hnearest := nearest_halfEven (roundTo e x)
  generalize halfEven (roundTo e x) = n at h hnearest ⊢
  have hfirst := nearest_halfEven (x / (10 : Rat) ^ e)
  unfold roundTo at hnearest
  generalize halfEven (x / (10 : Rat) ^ e) = m at hnearest hfirst
  have hdistance : |(m : Rat) * 10 ^ e - n| = ((|m - n * (2 * half)| : Int) : Rat) * 10 ^ e := by
    rw [abs_sub_eq_units hhalf, mul_div_cancel_right₀ _ hunit.ne', ← Int.cast_sub, Int.cast_abs]
  have hwithin := hfirst.within
  have htriangle : |x / (10 : Rat) ^ e - (n * (2 * half) : Int)| ≤
      |x / (10 : Rat) ^ e - m| + ((|m - n * (2 * half)| : Int) : Rat) := by
    have := abs_add_le (x / (10 : Rat) ^ e - m) ((m - n * (2 * half) : Int) : Rat)
    rw [Int.cast_sub, sub_add_sub_cancel, ← Int.cast_sub] at this
    rwa [Int.cast_abs]
  have hleft : ¬ |x - n| < 1 / 2 := fun hlt => h (halfEven_eq_iff.mpr (.inl hlt)).symm
  rcases hnearest with hlt | ⟨heq, hn⟩
  · -- Rounded to less than a half away, `x` itself is less than a half away.
    rw [hdistance, ← hhalf] at hlt
    have hunits : |m - n * (2 * half)| ≤ half - 1 := by
      have : ((|m - n * (2 * half)| : Int) : Rat) < half := lt_of_mul_lt_mul_right hlt hunit.le
      have : |m - n * (2 * half)| < half := by exact_mod_cast this
      omega
    have hcast : ((|m - n * (2 * half)| : Int) : Rat) ≤ half - 1 := by exact_mod_cast hunits
    refine absurd ?_ hleft
    rw [abs_sub_eq_units hhalf, ← hhalf]
    exact mul_lt_mul_of_pos_right (by linarith) hunit
  · rw [hdistance, ← hhalf] at heq
    have hunits : |m - n * (2 * half)| = half := by exact_mod_cast mul_right_cancel₀ hunit.ne' heq
    rw [hunits] at htriangle
    have hbeyond : (half : Rat) < |x / (10 : Rat) ^ e - (n * (2 * half) : Int)| := by
      by_contra hle
      refine h (halfEven_eq_of_even hn ?_).symm
      rw [abs_sub_eq_units hhalf, ← hhalf]
      exact mul_le_mul_of_nonneg_right (not_lt.mp hle) hunit.le
    refine ⟨hn, hbeyond, ?_⟩
    rcases hfirst with hlt | ⟨-, hm⟩
    · exact .inl (by linarith)
    · -- Between two values of the place, the first rounding has taken the even one.
      have heven : Even half := by
        have hmn : Even (m - n * (2 * half)) := hm.sub (hn.mul_right _)
        rwa [← even_abs, hunits] at hmn
      exact (lt_or_eq_of_le (by linarith)).imp_right fun heq => ⟨heq, heven⟩

/-- **Rounding at a place and then to an integer is rounding to an integer exactly where
`RoundsOnce` says.** -/
theorem halfEven_roundTo_iff : halfEven (roundTo e x) = halfEven x ↔ RoundsOnce e x := by
  rcases lt_trichotomy e 0 with hneg | rfl | hpos
  · constructor
    · intro heq
      refine ⟨fun _ n hn => ?_, fun habs => by omega⟩
      -- The second rounding gives `n`, which is more than a half away from `x`.
      have hround := hn.halfEven_roundTo hneg
      have herror := halfEven_error x
      rw [← heq, hround, abs_sub_comm] at herror
      exact absurd hn.beyond (not_lt.mpr herror)
    · intro h
      by_contra hne
      exact h.below hneg _ (justBeyond_of_ne hneg hne)
  · have hzero : roundTo 0 x = halfEven x := by simp [roundTo]
    rw [hzero, halfEven_intCast]
    exact iff_of_true rfl ⟨fun h => absurd h (lt_irrefl 0), fun h => absurd h (lt_irrefl 0)⟩
  · rw [halfEven_roundTo_above hpos]
    exact ⟨fun h => ⟨fun habs => by omega, fun _ => h⟩, fun h => h.above hpos⟩

/-- Rounding to digits is rounding at the last place that is kept. -/
theorem halfEven_roundDigits_iff (digits : Nat) (x : Rat) :
    halfEven (roundDigits digits x) = halfEven x ↔ RoundsOnce (lastPlace digits x) x := by
  rw [roundDigits_eq_roundTo, halfEven_roundTo_iff]

end

end Numeric
