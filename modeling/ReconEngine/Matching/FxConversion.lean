import ReconEngine.Matching.Fx
import ReconEngine.Numeric.DoubleRounding

/-!
# The conversion to paise

`to_inr_minor` multiplies in the decimal context and rounds the product to an integer. An amount of
19 digits times a rate of 18 has more digits than the context keeps, so that such a product is rounded
before it is rounded.

**The law** (`toInrMinor_once_iff`): what comes out is the rounding of the exact product if and only
if the first rounding does no harm (`ConvertsOnce`). It does none where the product has no more
digits than the context keeps (`toInrMinor_of_fits`).

**What it does not establish.** How far a product that is rounded twice is from the right one. The
condition is that of this conversion; comparisons of two converted amounts are `Matching.FxBounds`.
-/

set_option autoImplicit false

namespace Recon

open Numeric

/-- A rate that `fx_rates` holds: positive, in `NUMERIC(18, 8)`. -/
def StorableRate (rateInr : Rat) : Prop :=
  ∃ units : Int, 0 < units ∧ units < 10 ^ 18 ∧ rateInr = units / 10 ^ 8

/-- The product in paise, of which nothing is rounded. -/
def exactInr (amountMinor : Int) (rateInr : Rat) (exponent : Nat) : Rat :=
  amountMinor * rateInr * (10 : Rat) ^ ((2 : Int) - exponent)

/-- When the rounding of the exact product is what comes out. INR is never converted: its amount comes
out at any rate, and is the rounding of the product only where the product is near. -/
structure ConvertsOnce (amountMinor : Int) (currency : String) (rateInr : Rat) (exponent : Nat) :
    Prop where
  inr : currency = "INR" → Nearest (amountMinor * rateInr) amountMinor
  foreign : currency ≠ "INR" →
    RoundsOnce (lastPlace contextPrecision (exactInr amountMinor rateInr exponent))
      (exactInr amountMinor rateInr exponent)

section

variable {amountMinor : Int} {currency : String} {rateInr : Rat} {exponent : Nat}

/-- The scale is a power of ten, so that only the product of amount and rate is rounded. -/
theorem toInrMinor_foreign (hexponent : currencyExponent currency = some exponent)
    (hforeign : currency ≠ "INR") :
    toInrMinor amountMinor currency rateInr =
      .ok (halfEven (rounded (exactInr amountMinor rateInr exponent))) := by
  have hkept : Representable contextPrecision
      (rounded (amountMinor * rateInr) * (10 : Rat) ^ ((2 : Int) - exponent)) :=
    (representable_roundDigits contextPrecision _).shift _
  have hscaled : rounded (rounded (amountMinor * rateInr) * (10 : Rat) ^ ((2 : Int) - exponent)) =
      rounded (exactInr amountMinor rateInr exponent) := by
    rw [exactInr, rounded_shift (amountMinor * rateInr)]
    exact roundDigits_of_representable (by decide) hkept
  simp only [toInrMinor, if_neg hforeign, hexponent, hscaled]

/-- **The conversion rounds once exactly where the first rounding does no harm.** -/
theorem toInrMinor_once_iff (hexponent : currencyExponent currency = some exponent) :
    toInrMinor amountMinor currency rateInr =
        .ok (halfEven (exactInr amountMinor rateInr exponent)) ↔
      ConvertsOnce amountMinor currency rateInr exponent := by
  by_cases hinr : currency = "INR"
  · subst hinr
    obtain rfl : 2 = exponent := Option.some.inj (currencyExponent_inr.symm.trans hexponent)
    have hexact : exactInr amountMinor rateInr 2 = amountMinor * rateInr := by
      simp [exactInr]
    have hsame : toInrMinor amountMinor "INR" rateInr = .ok amountMinor := by simp [toInrMinor]
    rw [hsame, hexact, Except.ok.injEq, eq_comm, halfEven_eq_iff]
    exact ⟨fun h => ⟨fun _ => h, fun hne => absurd rfl hne⟩, fun h => h.inr rfl⟩
  · rw [toInrMinor_foreign hexponent hinr, Except.ok.injEq, rounded, halfEven_roundDigits_iff]
    exact ⟨fun h => ⟨fun heq => absurd heq hinr, fun _ => h⟩, fun h => h.foreign hinr⟩

/-- A product of no more digits than the context keeps is rounded once. -/
theorem toInrMinor_of_fits (hexponent : currencyExponent currency = some exponent)
    (hforeign : currency ≠ "INR") (hrate : StorableRate rateInr) (hamount : |amountMinor| ≤ 10 ^ 10) :
    toInrMinor amountMinor currency rateInr =
      .ok (halfEven (exactInr amountMinor rateInr exponent)) := by
  obtain ⟨units, hpos, hlt, rfl⟩ := hrate
  have hdigits : |amountMinor * units| ≤ 10 ^ 28 := by
    rw [abs_mul, abs_of_pos hpos]
    calc |amountMinor| * units ≤ 10 ^ 10 * 10 ^ 18 :=
          mul_le_mul hamount hlt.le hpos.le (by norm_num)
      _ = 10 ^ 28 := by norm_num
  have hproduct : (amountMinor : Rat) * (units / 10 ^ 8) =
      ((amountMinor * units : Int) : Rat) * (10 : Rat) ^ (-8 : Int) := by
    push_cast
    norm_num [zpow_neg]
    ring
  have hkept : Representable contextPrecision (exactInr amountMinor (units / 10 ^ 8) exponent) := by
    rw [exactInr, hproduct]
    exact Representable.shift ⟨_, _, hdigits, rfl⟩ _
  rw [toInrMinor_foreign hexponent hforeign, rounded,
    roundDigits_of_representable (by decide) hkept]

end

/-- Three cents at half a rupee: one and a half paise, rounded to two. -/
theorem toInrMinor_once_iff_halfPaisa :
    ConvertsOnce 3 "USD" (1 / 2) 2 ∧ toInrMinor 3 "USD" (1 / 2) = .ok 2 := by
  have hexponent : currencyExponent "USD" = some 2 := by decide +kernel
  exact ⟨(toInrMinor_once_iff hexponent).mp (by decide +kernel), by decide +kernel⟩

/-- The exact product ends in 898.50000001 paise. The context keeps 898.5, which goes to the even
898. -/
theorem toInrMinor_roundsTwice :
    ¬ ∀ (amountMinor : Int) (currency : String) (rateInr : Rat) (exponent : Nat),
      -(2 ^ 63) ≤ amountMinor → amountMinor < 2 ^ 63 →
      currencyExponent currency = some exponent → StorableRate rateInr →
      toInrMinor amountMinor currency rateInr =
        .ok (halfEven (exactInr amountMinor rateInr exponent)) := by
  intro h
  have hrate : StorableRate (9999999999 / 10 ^ 8) :=
    ⟨9999999999, by decide, by decide, by norm_num⟩
  have hclaim := h 1000000000149999999 "USD" (9999999999 / 10 ^ 8) 2 (by decide) (by decide)
    (by decide +kernel) hrate
  revert hclaim
  decide +kernel

end Recon
