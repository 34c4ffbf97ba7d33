import Mathlib.Algebra.Order.Field.Basic
import Mathlib.Algebra.Order.Field.Power
import Mathlib.Data.Int.Log
import Mathlib.Data.Rat.Floor
import Mathlib.Tactic.Linarith
import Mathlib.Tactic.FieldSimp
import Mathlib.Tactic.Positivity
import Mathlib.Tactic.NormNum

/-!
# Rounding to a number of significant digits

A decimal context keeps a fixed number of significant digits and rounds every result half to even.
Values are exact rationals here, and `roundDigits` is that rounding; exponents are unbounded.

`Nearest` describes the rounding to an integer, and `halfEven_eq_iff` says that it does so exactly.
Four facts carry every use of the rounding to digits: a value with few enough digits is kept
(`roundDigits_of_representable`), rounding does not cross such a value (`roundDigits_le`,
`le_roundDigits`), it keeps the order (`roundDigits_mono`), and the error is at most half a unit of
the last place kept (`roundDigits_error`).

**What it does not establish.** Signals: a context with bounded exponents overflows where this one
does not, and callers that can come near such values say so themselves.
-/

set_option autoImplicit false

namespace Numeric

/-- `ROUND_HALF_EVEN` to an integer. -/
def halfEven (q : Rat) : Int :=
  let floor := q.floor
  let rest := q - floor
  if rest < 1 / 2 then floor
  else if rest = 1 / 2 ∧ floor % 2 = 0 then floor
  else floor + 1

/-! ## Rounding to an integer -/

/-- The integers that a value is rounded to: those nearest to it, of two the even one. -/
def Nearest (q : Rat) (n : Int) : Prop := |q - n| < 1 / 2 ∨ |q - n| = 1 / 2 ∧ Even n

theorem Nearest.within {q : Rat} {n : Int} (h : Nearest q n) : |q - n| ≤ 1 / 2 :=
  h.elim le_of_lt fun hhalf => hhalf.1.le

/-- Rounding goes to a nearest integer. -/
theorem nearest_halfEven (q : Rat) : Nearest q (halfEven q) := by
  have hlow := Int.floor_le q
  have hhigh := Int.lt_floor_add_one q
  unfold halfEven
  change Nearest q (if q - ⌊q⌋ < 1 / 2 then ⌊q⌋
    else if q - ⌊q⌋ = 1 / 2 ∧ ⌊q⌋ % 2 = 0 then ⌊q⌋ else ⌊q⌋ + 1)
  split
  case isTrue hrest => exact .inl (abs_lt.mpr ⟨by linarith, hrest⟩)
  case isFalse hrest =>
    split
    case isTrue hhalf =>
      refine .inr ⟨?_, Int.even_iff.mpr hhalf.2⟩
      rw [hhalf.1, abs_of_pos (by norm_num)]
    case isFalse hhalf =>
      have hdistance : |q - ((⌊q⌋ + 1 : Int) : Rat)| = 1 - (q - ⌊q⌋) := by
        push_cast
        rw [abs_of_neg (by linarith)]
        ring
      rcases (not_lt.mp hrest).lt_or_eq with hgt | heq
      · exact .inl (by rw [hdistance]; linarith)
      · refine .inr ⟨by rw [hdistance]; linarith, ?_⟩
        have hodd : ¬ ⌊q⌋ % 2 = 0 := fun heven => hhalf ⟨heq.symm, heven⟩
        exact Int.even_iff.mpr (by omega)

theorem halfEven_error (q : Rat) : |(halfEven q : Rat) - q| ≤ 1 / 2 := by
  rw [abs_sub_comm]
  exact (nearest_halfEven q).within

/-- Less than half above an integer is rounded to it or below. -/
theorem halfEven_le_of_lt {q : Rat} {n : Int} (h : q < n + 1 / 2) : halfEven q ≤ n := by
  have hup := (abs_le.mp (halfEven_error q)).2
  have hlt : (halfEven q : Rat) < ((n + 1 : Int) : Rat) := by
    push_cast
    linarith
  exact Int.lt_add_one_iff.mp (by exact_mod_cast hlt)

/-- Rounding does not cross an integer. -/
theorem halfEven_le {q : Rat} {n : Int} (h : q ≤ n) : halfEven q ≤ n :=
  halfEven_le_of_lt (by linarith)

theorem le_halfEven {q : Rat} {n : Int} (h : (n : Rat) ≤ q) : n ≤ halfEven q := by
  have hdown := (abs_le.mp (halfEven_error q)).1
  have hlt : ((n - 1 : Int) : Rat) < halfEven q := by
    push_cast
    linarith
  exact Int.sub_one_lt_iff.mp (by exact_mod_cast hlt)

theorem halfEven_intCast (n : Int) : halfEven (n : Rat) = n :=
  le_antisymm (halfEven_le (le_refl _)) (le_halfEven (le_refl _))

/-- There is one such integer, since ties go to the even one. -/
theorem Nearest.unique {q : Rat} {m n : Int} (hm : Nearest q m) (hn : Nearest q n) : m = n := by
  have hm' := hm.within
  have hn' := hn.within
  have hsplit : ((m - n : Int) : Rat) = (q - n) - (q - m) := by
    push_cast
    ring
  have hclose : |m - n| ≤ 1 := by
    have htriangle := abs_sub (q - n) (q - m)
    rw [← hsplit, ← Int.cast_abs] at htriangle
    have : ((|m - n| : Int) : Rat) ≤ 1 := by linarith
    exact_mod_cast this
  by_contra hne
  have hone : |m - n| = 1 := by
    have := abs_pos.mpr (sub_ne_zero.mpr hne)
    omega
  -- One apart, both are at a half, and both even.
  have hsum : (1 : Rat) ≤ |q - n| + |q - m| := by
    have htriangle := abs_sub (q - n) (q - m)
    rw [← hsplit, ← Int.cast_abs, hone] at htriangle
    exact_mod_cast htriangle
  have heven : ∀ k, Nearest q k → |q - k| = 1 / 2 → Even k := by
    rintro k (hlt | ⟨-, heven⟩) heq
    · exact absurd heq hlt.ne
    · exact heven
  obtain ⟨a, ha⟩ := heven m hm (by linarith)
  obtain ⟨b, hb⟩ := heven n hn (by linarith)
  rcases (abs_eq (by decide)).mp hone with hone | hone <;> omega

theorem halfEven_eq_iff {q : Rat} {n : Int} : halfEven q = n ↔ Nearest q n :=
  ⟨fun h => h ▸ nearest_halfEven q, (nearest_halfEven q).unique⟩

/-- Rounding to an integer keeps the order. -/
theorem halfEven_mono {p q : Rat} (h : p ≤ q) : halfEven p ≤ halfEven q := by
  by_contra hlt
  rw [not_le] at hlt
  have hstep : (halfEven q : Rat) + 1 ≤ halfEven p := by exact_mod_cast hlt
  have hp := abs_le.mp (halfEven_error p)
  have hq := abs_le.mp (halfEven_error q)
  -- Both lie halfway between the two results, and so are equal.
  have heq : p = q := by linarith [hp.2, hq.1]
  rw [heq] at hlt
  exact lt_irrefl _ hlt

/-- An even integer takes both halves beside it. -/
theorem halfEven_eq_of_even {q : Rat} {n : Int} (hn : Even n) (h : |q - n| ≤ 1 / 2) :
    halfEven q = n :=
  halfEven_eq_iff.mpr (h.lt_or_eq.imp_right fun heq => ⟨heq, hn⟩)

/-! ## Rounding at a place -/

/-- `x` rounded half to even at the place of `10 ^ e`. -/
def roundTo (e : Int) (x : Rat) : Rat := halfEven (x / (10 : Rat) ^ e) * (10 : Rat) ^ e

/-- Rounding at a place moves a value by at most half a unit of that place. -/
theorem roundTo_error (e : Int) (x : Rat) : |roundTo e x - x| ≤ (10 : Rat) ^ e / 2 := by
  have hunit : (0 : Rat) < 10 ^ e := by positivity
  have hsplit : roundTo e x - x = ((halfEven (x / 10 ^ e) : Rat) - x / 10 ^ e) * 10 ^ e := by
    unfold roundTo
    field_simp
  rw [hsplit, abs_mul, abs_of_pos hunit]
  calc |(halfEven (x / 10 ^ e) : Rat) - x / 10 ^ e| * 10 ^ e ≤ 1 / 2 * 10 ^ e := by
        gcongr
        exact halfEven_error _
    _ = 10 ^ e / 2 := by ring

/-! ## Rounding to digits -/

section

variable (digits : Nat)

/-- The exponent of the last place that is kept of `x`. -/
def lastPlace (x : Rat) : Int := Int.log 10 |x| - (digits - 1 : Int)

/-- `x` with `digits` significant digits, half to even. -/
def roundDigits (x : Rat) : Rat :=
  if x = 0 then 0
  else halfEven (x / (10 : Rat) ^ lastPlace digits x) * (10 : Rat) ^ lastPlace digits x

/-- `x` is an integer of at most `digits` digits at some place. -/
def Representable (x : Rat) : Prop :=
  ∃ m e : Int, |m| ≤ (10 : Int) ^ digits ∧ x = m * (10 : Rat) ^ e

end

section

variable {digits : Nat} {x r : Rat}

theorem Representable.shift (h : Representable digits x) (e : Int) :
    Representable digits (x * (10 : Rat) ^ e) := by
  obtain ⟨m, e', hm, rfl⟩ := h
  exact ⟨m, e' + e, hm, by rw [mul_assoc, ← zpow_add₀ (by norm_num)]⟩

/-- What is kept of `x` has `digits` digits. -/
theorem unit_bounds (digits : Nat) (hx : x ≠ 0) :
    (10 : Rat) ^ (digits - 1 : Int) * (10 : Rat) ^ lastPlace digits x ≤ |x| ∧
      |x| < (10 : Rat) ^ (digits : Int) * (10 : Rat) ^ lastPlace digits x := by
  have hpos : 0 < |x| := abs_pos.mpr hx
  have hten : (10 : Rat) ≠ 0 := by norm_num
  rw [← zpow_add₀ hten, ← zpow_add₀ hten, lastPlace]
  constructor
  · rw [show (digits - 1 : Int) + (Int.log 10 |x| - (digits - 1 : Int)) = Int.log 10 |x| by ring]
    exact_mod_cast Int.zpow_log_le_self (by norm_num : 1 < 10) hpos
  · rw [show (digits : Int) + (Int.log 10 |x| - (digits - 1 : Int)) = Int.log 10 |x| + 1 by ring]
    exact_mod_cast Int.lt_zpow_succ_log_self (by norm_num : 1 < 10) |x|

theorem log_shift (hx : x ≠ 0) (e : Int) : Int.log 10 |x * (10 : Rat) ^ e| = Int.log 10 |x| + e := by
  have hpos : 0 < |x| := abs_pos.mpr hx
  have hunit : (0 : Rat) < 10 ^ e := by positivity
  rw [abs_mul, abs_of_pos hunit]
  refine le_antisymm (Int.lt_add_one_iff.mp ?_) ?_
  · rw [← Int.lt_zpow_iff_log_lt (by decide) (mul_pos hpos hunit), add_right_comm,
      zpow_add₀ (by norm_num)]
    exact mul_lt_mul_of_pos_right (Int.lt_zpow_succ_log_self (by decide) _) hunit
  · rw [← Int.zpow_le_iff_le_log (by decide) (mul_pos hpos hunit), zpow_add₀ (by norm_num)]
    exact mul_le_mul_of_nonneg_right (Int.zpow_log_le_self (by decide) hpos) hunit.le

/-- What is kept does not depend on where the point is. -/
theorem roundDigits_shift (x : Rat) (e : Int) :
    roundDigits digits (x * (10 : Rat) ^ e) = roundDigits digits x * (10 : Rat) ^ e := by
  by_cases hx : x = 0
  · simp [hx, roundDigits]
  · have hten : (10 : Rat) ≠ 0 := by norm_num
    have hne : x * (10 : Rat) ^ e ≠ 0 := mul_ne_zero hx (zpow_ne_zero e hten)
    have hplace : lastPlace digits (x * (10 : Rat) ^ e) = lastPlace digits x + e := by
      rw [lastPlace, lastPlace, log_shift hx]
      ring
    rw [roundDigits, if_neg hne, roundDigits, if_neg hx, hplace, zpow_add₀ hten,
      mul_div_mul_right _ _ (zpow_ne_zero e hten), mul_assoc]

theorem roundDigits_eq_roundTo (digits : Nat) (x : Rat) :
    roundDigits digits x = roundTo (lastPlace digits x) x := by
  unfold roundDigits roundTo
  split
  case isTrue hx =>
    have hzero : halfEven (0 : Rat) = ((0 : Int) : Rat) := by rw [← Int.cast_zero, halfEven_intCast]
    rw [hx, zero_div, hzero, Int.cast_zero, zero_mul]
  case isFalse => rfl

/-- A representable value is an integer in units of the last place of `x`, or is no larger than the
least value that has this last place. -/
theorem Representable.place (hr : Representable digits r) (e : Int) :
    (∃ n : Int, r = n * (10 : Rat) ^ e) ∨ |r| ≤ (10 : Rat) ^ (digits - 1 : Int) * (10 : Rat) ^ e := by
  obtain ⟨m, k, hm, rfl⟩ := hr
  have hten : (10 : Rat) ≠ 0 := by norm_num
  rcases le_or_gt e k with hle | hlt
  · obtain ⟨n, hn⟩ := Int.eq_ofNat_of_zero_le (sub_nonneg.mpr hle)
    refine .inl ⟨m * 10 ^ n, ?_⟩
    have hk : k = n + e := by omega
    rw [hk, zpow_add₀ hten, zpow_natCast]
    push_cast
    ring
  · refine .inr ?_
    have hm' : |(m : Rat)| ≤ (10 : Rat) ^ (digits : Int) := by
      rw [zpow_natCast]
      exact_mod_cast hm
    have hk : (10 : Rat) ^ k ≤ (10 : Rat) ^ (e - 1) :=
      zpow_le_zpow_right₀ (by norm_num) (by omega)
    have hpos : (0 : Rat) < 10 ^ k := by positivity
    rw [abs_mul, abs_of_pos hpos]
    calc |(m : Rat)| * 10 ^ k ≤ 10 ^ (digits : Int) * 10 ^ (e - 1) :=
          mul_le_mul hm' hk hpos.le (by positivity)
      _ = 10 ^ (digits - 1 : Int) * 10 ^ e := by
          rw [← zpow_add₀ hten, ← zpow_add₀ hten]
          congr 1
          ring

theorem one_le_digits_pow (h : 1 ≤ digits) :
    ((10 ^ (digits - 1) : Int) : Rat) = (10 : Rat) ^ (digits - 1 : Int) := by
  have hcast : (digits - 1 : Int) = ((digits - 1 : Nat) : Int) := by omega
  rw [hcast, zpow_natCast]
  push_cast
  rfl

/-- Rounding does not cross a representable value. -/
theorem roundDigits_le (hdigits : 1 ≤ digits) (hr : Representable digits r) (h : x ≤ r) :
    roundDigits digits x ≤ r := by
  unfold roundDigits
  split
  · rename_i hx
    rw [← hx]
    exact h
  · rename_i hx
    obtain ⟨hlow, -⟩ := unit_bounds digits hx
    have hu : (0 : Rat) < 10 ^ lastPlace digits x := by positivity
    generalize (lastPlace digits x) = e at *
    rcases hr.place e with ⟨n, rfl⟩ | hsmall
    · refine mul_le_mul_of_nonneg_right ?_ hu.le
      exact_mod_cast halfEven_le ((div_le_iff₀ hu).mpr h)
    · have hleast := one_le_digits_pow hdigits
      rcases lt_or_gt_of_ne hx with hneg | hpos
      · -- `x` is below the least value of its place, and `r` is not
        have hx' : x / 10 ^ e ≤ ((-(10 ^ (digits - 1)) : Int) : Rat) := by
          rw [div_le_iff₀ hu]
          push_cast at hleast ⊢
          rw [hleast]
          rw [abs_of_neg hneg] at hlow
          linarith
        have hround : ((halfEven (x / 10 ^ e) : Int) : Rat) ≤ ((-(10 ^ (digits - 1)) : Int) : Rat) := by
          exact_mod_cast halfEven_le hx'
        have hr' := neg_le_of_abs_le hsmall
        calc (halfEven (x / 10 ^ e) : Rat) * 10 ^ e
            ≤ ((-(10 ^ (digits - 1)) : Int) : Rat) * 10 ^ e :=
              mul_le_mul_of_nonneg_right hround hu.le
          _ = -((10 : Rat) ^ (digits - 1 : Int) * 10 ^ e) := by
              push_cast at hleast ⊢
              rw [hleast]
              ring
          _ ≤ r := hr'
      · -- `r` is the least value of the place of `x`, and equal to `x`
        have hrx : r = (10 : Rat) ^ (digits - 1 : Int) * 10 ^ e := by
          rw [abs_of_pos hpos] at hlow
          have := le_abs_self r
          linarith
        have hx' : x / 10 ^ e ≤ ((10 ^ (digits - 1) : Int) : Rat) := by
          rw [div_le_iff₀ hu, hleast, ← hrx]
          exact h
        rw [hrx, ← hleast]
        refine mul_le_mul_of_nonneg_right ?_ hu.le
        exact_mod_cast halfEven_le hx'

/-- A value that is kept is not crossed from above. -/
theorem le_roundDigits (hdigits : 1 ≤ digits) (hr : Representable digits r) (h : r ≤ x) :
    r ≤ roundDigits digits x := by
  unfold roundDigits
  split
  · rename_i hx
    rw [← hx]
    exact h
  · rename_i hx
    obtain ⟨hlow, -⟩ := unit_bounds digits hx
    have hu : (0 : Rat) < 10 ^ lastPlace digits x := by positivity
    generalize (lastPlace digits x) = e at *
    rcases hr.place e with ⟨n, rfl⟩ | hsmall
    · refine mul_le_mul_of_nonneg_right ?_ hu.le
      exact_mod_cast le_halfEven ((le_div_iff₀ hu).mpr h)
    · have hleast := one_le_digits_pow hdigits
      rcases lt_or_gt_of_ne hx with hneg | hpos
      · have hrx : r = -((10 : Rat) ^ (digits - 1 : Int) * 10 ^ e) := by
          rw [abs_of_neg hneg] at hlow
          have := neg_le_of_abs_le hsmall
          linarith
        have hx' : ((-(10 ^ (digits - 1)) : Int) : Rat) ≤ x / 10 ^ e := by
          rw [le_div_iff₀ hu]
          push_cast at hleast ⊢
          rw [hleast]
          linarith
        have hround : ((-(10 ^ (digits - 1)) : Int) : Rat) ≤ (halfEven (x / 10 ^ e) : Int) := by
          exact_mod_cast le_halfEven hx'
        calc r = ((-(10 ^ (digits - 1)) : Int) : Rat) * 10 ^ e := by
              push_cast at hleast ⊢
              rw [hleast, hrx]
              ring
          _ ≤ (halfEven (x / 10 ^ e) : Rat) * 10 ^ e := mul_le_mul_of_nonneg_right hround hu.le
      · have hx' : ((10 ^ (digits - 1) : Int) : Rat) ≤ x / 10 ^ e := by
          rw [le_div_iff₀ hu, hleast]
          rw [abs_of_pos hpos] at hlow
          exact hlow
        have hround : ((10 ^ (digits - 1) : Int) : Rat) ≤ (halfEven (x / 10 ^ e) : Int) := by
          exact_mod_cast le_halfEven hx'
        calc r ≤ (10 : Rat) ^ (digits - 1 : Int) * 10 ^ e := le_of_abs_le hsmall
          _ ≤ (halfEven (x / 10 ^ e) : Rat) * 10 ^ e := by
              rw [← hleast]
              exact mul_le_mul_of_nonneg_right hround hu.le

/-- A value with few enough digits is kept. -/
theorem roundDigits_of_representable (hdigits : 1 ≤ digits) (hx : Representable digits x) :
    roundDigits digits x = x :=
  le_antisymm (roundDigits_le hdigits hx (le_refl x)) (le_roundDigits hdigits hx (le_refl x))

/-- What rounding gives has `digits` digits. -/
theorem representable_roundDigits (digits : Nat) (x : Rat) :
    Representable digits (roundDigits digits x) := by
  unfold roundDigits
  split
  · exact ⟨0, 0, by simp, by simp⟩
  · rename_i hx
    obtain ⟨-, hhigh⟩ := unit_bounds digits hx
    have hu : (0 : Rat) < 10 ^ lastPlace digits x := by positivity
    refine ⟨halfEven (x / 10 ^ lastPlace digits x), lastPlace digits x, ?_, rfl⟩
    obtain ⟨hlow, hhigh⟩ := abs_lt.mp hhigh
    rw [zpow_natCast] at hlow hhigh
    rw [abs_le]
    constructor
    · refine le_halfEven ?_
      rw [le_div_iff₀ hu]
      push_cast
      linarith
    · refine halfEven_le ?_
      rw [div_le_iff₀ hu]
      push_cast
      exact hhigh.le

/-- Rounding at a place keeps the order. -/
theorem roundTo_mono (e : Int) {x y : Rat} (h : x ≤ y) : roundTo e x ≤ roundTo e y := by
  have hunit : (0 : Rat) < 10 ^ e := by positivity
  unfold roundTo
  refine mul_le_mul_of_nonneg_right ?_ hunit.le
  exact_mod_cast halfEven_mono (div_le_div_of_nonneg_right h hunit.le)

/-- Rounding to digits keeps the order of values that are not negative: those of one size have one
last place, and between two sizes lies a power of ten. -/
theorem roundDigits_mono (hdigits : 1 ≤ digits) {y : Rat} (hx : 0 ≤ x) (h : x ≤ y) :
    roundDigits digits x ≤ roundDigits digits y := by
  rcases hx.eq_or_lt with rfl | hpos
  · have hzero : roundDigits digits 0 = 0 := if_pos rfl
    rw [hzero]
    exact le_roundDigits hdigits ⟨0, 0, by simp, by simp⟩ h
  · have hypos : 0 < y := hpos.trans_le h
    have hone : (1 : Int) ≤ 10 ^ digits := one_le_pow₀ (by norm_num)
    have hlog : Int.log 10 x ≤ Int.log 10 y := Int.log_mono_right hpos h
    rcases hlog.eq_or_lt with hsame | hless
    · have hplace : lastPlace digits x = lastPlace digits y := by
        rw [lastPlace, lastPlace, abs_of_pos hpos, abs_of_pos hypos, hsame]
      rw [roundDigits_eq_roundTo, roundDigits_eq_roundTo, hplace]
      exact roundTo_mono _ h
    · have hpower : Representable digits ((10 : Rat) ^ Int.log 10 y) :=
        ⟨1, Int.log 10 y, by simpa using hone, by rw [Int.cast_one, one_mul]⟩
      have hbelow : x ≤ (10 : Rat) ^ Int.log 10 y := by
        exact_mod_cast ((Int.lt_zpow_iff_log_lt (by norm_num : 1 < 10) hpos).mpr hless).le
      have habove : (10 : Rat) ^ Int.log 10 y ≤ y := by
        exact_mod_cast Int.zpow_log_le_self (by norm_num : 1 < 10) hypos
      exact (roundDigits_le hdigits hpower hbelow).trans (le_roundDigits hdigits hpower habove)

/-- The error in units of a place that `x` does not reach beyond. -/
theorem roundDigits_error_of_lt (digits : Nat) {k : Int} (h : |x| < (10 : Rat) ^ k) :
    |roundDigits digits x - x| ≤ (10 : Rat) ^ (k - digits) / 2 := by
  by_cases hx : x = 0
  · rw [hx, roundDigits, if_pos rfl, sub_zero, abs_zero]
    positivity
  · have hplace : lastPlace digits x ≤ k - digits := by
      have hlog := (Int.lt_zpow_iff_log_lt (by norm_num : 1 < 10) (abs_pos.mpr hx)).mp
        (by exact_mod_cast h)
      unfold lastPlace
      omega
    have hle : (10 : Rat) ^ lastPlace digits x ≤ 10 ^ (k - digits) :=
      zpow_le_zpow_right₀ (by norm_num) hplace
    rw [roundDigits_eq_roundTo]
    calc |roundTo (lastPlace digits x) x - x| ≤ 10 ^ lastPlace digits x / 2 := roundTo_error _ x
      _ ≤ 10 ^ (k - digits) / 2 := by linarith

/-- Half a unit of the last place. -/
theorem roundDigits_error (digits : Nat) (x : Rat) :
    |roundDigits digits x - x| ≤ |x| / (2 * (10 : Rat) ^ (digits - 1 : Int)) := by
  by_cases hx : x = 0
  · rw [hx, roundDigits, if_pos rfl]
    simp
  · obtain ⟨hlow, -⟩ := unit_bounds digits hx
    rw [roundDigits_eq_roundTo]
    calc |roundTo (lastPlace digits x) x - x| ≤ 10 ^ lastPlace digits x / 2 := roundTo_error _ x
      _ ≤ |x| / (2 * (10 : Rat) ^ (digits - 1 : Int)) := by
        rw [le_div_iff₀ (by positivity)]
        linarith

end

end Numeric
