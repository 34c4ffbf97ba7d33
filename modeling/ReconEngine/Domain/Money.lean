import ReconEngine.Ingestion.Balances

/-!
# Money and its minor units

`Money` holds an amount twice, as a decimal and in minor units, and `CanonicalTransaction` does too.
Both compare the two when they are built: the decimal, scaled by the exponent of the currency, is cut
to an integer.

**The law** (`money_exact`): what the factories build and what sums and differences give is exact, or
refused. What is built from both numbers is exact where the amount has no more decimals than its
currency and no more digits than the decimal context keeps; any other amount is accepted with minor
units that it does not have, as the cut drops what the comparison should see.

**What it does not establish.** Which letters `str.upper` makes of other scripts: a currency is one
of the table, in ASCII. Divisions and percentages of amounts are not operations of `Money`.
-/

set_option autoImplicit false

namespace Recon

/-- A result as the context keeps it, by the digits that it keeps. -/
theorem contextRound_eq_rounded (value : Rat) : contextRound value = rounded value := by
  unfold contextRound rounded Numeric.roundDigits Numeric.lastPlace adjusted contextPrecision
  norm_num

namespace Domain

/-! ## Decimals -/

/-- A `Decimal`, by its value. -/
inductive Decimal where
  | finite (value : Rat)
  | infinite
  | nan
  | signalingNan
deriving DecidableEq, Repr

/-- The rounding modes of the decimal module. -/
inductive Rounding where
  | ceiling
  | down
  | floor
  | halfDown
  | halfEven
  | halfUp
  | up
  | zeroFiveUp
deriving DecidableEq, Repr

/-- `int` of a number: towards zero. -/
def truncate (value : Rat) : Int := if 0 ≤ value then ⌊value⌋ else ⌈value⌉

/-- Rounding away from zero. -/
def awayFromZero (value : Rat) : Int := if 0 ≤ value then ⌈value⌉ else ⌊value⌋

/-- The integer that a mode rounds to. -/
def Rounding.apply (mode : Rounding) (value : Rat) : Int :=
  match mode with
  | ceiling => ⌈value⌉
  | down => truncate value
  | floor => ⌊value⌋
  | halfDown => if 0 ≤ value then ⌈value - 1 / 2⌉ else ⌊value + 1 / 2⌋
  | halfEven => Numeric.halfEven value
  | halfUp => if 0 ≤ value then ⌊value + 1 / 2⌋ else ⌈value - 1 / 2⌉
  | up => awayFromZero value
  | zeroFiveUp => if 5 ∣ truncate value then awayFromZero value else truncate value

namespace Decimal

/-- `scaleb`: the result is rounded to the digits of the context. -/
def scaleb (exponent : Int) : Decimal → Except ReconError Decimal
  | finite value =>
    let scaled := contextRound (value * (10 : Rat) ^ exponent)
    if overflows scaled then .error (.arithmetic "Overflow") else .ok (finite scaled)
  | infinite => .ok infinite
  | nan => .ok nan
  | signalingNan => .error (.arithmetic "InvalidOperation")

/-- `int(…)`. -/
def toInt : Decimal → Except ReconError Int
  | finite value => .ok (truncate value)
  | infinite => .error (.arithmetic "cannot convert Infinity to integer")
  | nan | signalingNan => .error (.valueError "cannot convert NaN to integer")

/-- `quantize` to `exponent` places. -/
def quantize (exponent : Nat) (rounding : Rounding) : Decimal → Except ReconError Decimal
  | finite value =>
    let units := rounding.apply (value * 10 ^ exponent)
    if quantiseLimit ≤ |units| then .error (.arithmetic "InvalidOperation")
    else .ok (finite (units / 10 ^ exponent))
  | infinite => .error (.arithmetic "InvalidOperation")
  | nan => .ok nan
  | signalingNan => .error (.arithmetic "InvalidOperation")

end Decimal

/-! ## Money -/

def exponentOf (currency : String) : Except ReconError Nat :=
  match currencyExponent currency with
  | some exponent => .ok exponent
  | none => .error (.valueError (unknownCurrency currency))

structure Money where
  amount : Decimal
  currency : String
  minorUnits : Int
deriving DecidableEq, Repr

namespace Money

/-- The class itself, with the check of `__post_init__`. -/
def construct (amount : Decimal) (currency : String) (minorUnits : Int) :
    Except ReconError Money := do
  let exponent ← exponentOf currency
  let expectedMinor ← (← amount.scaleb exponent).toInt
  if expectedMinor ≠ minorUnits then
    throw (.valueError ("amount and minor_units are inconsistent for currency " ++ currency))
  return { amount, currency, minorUnits }

/-- `from_decimal`; `none` is an amount that is no number. -/
def fromDecimal (amount : Option Decimal) (currency : String) (rounding : Rounding) :
    Except ReconError Money := do
  let currency := currency.toUpper
  let exponent ← exponentOf currency
  match amount with
  | none => throw (.valueError "cannot interpret the amount as a Decimal amount")
  | some amount =>
    let quantized ← amount.quantize exponent rounding
    let minorUnits ← (← quantized.scaleb exponent).toInt
    construct quantized currency minorUnits

def fromMinorUnits (minorUnits : Int) (currency : String) : Except ReconError Money := do
  let currency := currency.toUpper
  let exponent ← exponentOf currency
  let amount ← (Decimal.finite minorUnits).scaleb (-(exponent : Int))
  construct amount currency minorUnits

def requireSameCurrency (a b : Money) : Except ReconError Unit :=
  if a.currency = b.currency then .ok ()
  else .error (.valueError ("cannot combine " ++ a.currency ++ " and " ++ b.currency ++
    " directly; convert via recon.fx before combining amounts in different currencies"))

def add (a b : Money) : Except ReconError Money := do
  a.requireSameCurrency b
  fromMinorUnits (a.minorUnits + b.minorUnits) a.currency

def sub (a b : Money) : Except ReconError Money := do
  a.requireSameCurrency b
  fromMinorUnits (a.minorUnits - b.minorUnits) a.currency

def absDiff (a b : Money) : Except ReconError Money := do
  a.requireSameCurrency b
  fromMinorUnits |a.minorUnits - b.minorUnits| a.currency

/-- One turn of the loop of `sum_money`. -/
def sumStep (currency : String) (totalMinor : Int) (amount : Money) : Except ReconError Int :=
  if amount.currency.toUpper ≠ currency.toUpper then
    .error (.valueError ("sum_money requires uniform currency; got " ++ amount.currency ++
      " mixed with target " ++ currency))
  else .ok (totalMinor + amount.minorUnits)

def sumMoney (amounts : List Money) (currency : String) : Except ReconError Money := do
  let totalMinor ← amounts.foldlM (sumStep currency) 0
  fromMinorUnits totalMinor currency

end Money

/-! ## The canonical transaction -/

/-- The fields of `CanonicalTransaction` that its validators look at. -/
structure CanonicalFields where
  amount : Decimal
  amountMinor : Int
  currency : String
  currencyExponentValue : Int
  originalCurrency : Option String
  isReversal : Bool
  reversesReference : Option String
deriving DecidableEq, Repr

namespace CanonicalFields

/-- Three characters, once surrounding blanks are gone, in upper case. -/
def validateCurrency (currency : String) : Except ReconError String :=
  if (strip currency).length ≠ 3 then .error (.valueError "String should have 3 characters")
  else .ok (strip currency).toUpper

/-- `_amount_non_negative`, of a finite number. -/
def validateAmount : Decimal → Except ReconError Decimal
  | .finite value =>
    if value < 0 then .error (.valueError "amount must be non-negative") else .ok (.finite value)
  | _ => .error (.valueError "Input should be a finite number")

/-- `_validate_currency_exponent_consistency`. -/
def validateConsistency (fields : CanonicalFields) : Except ReconError Unit := do
  let expectedExponent ← exponentOf fields.currency
  if (expectedExponent : Int) ≠ fields.currencyExponentValue then
    throw (.valueError "currency_exponent_value does not match the registered exponent")
  let expectedMinor ← (← fields.amount.scaleb expectedExponent).toInt
  if expectedMinor ≠ fields.amountMinor then
    throw (.valueError "amount_minor inconsistent with amount")

/-- `_validate_reversal_fields`. -/
def validateReversal (fields : CanonicalFields) : Except ReconError Unit :=
  if !fields.isReversal && fields.reversesReference.isSome then
    .error (.valueError "reverses_reference set but is_reversal is False")
  else .ok ()

/-- The fields of the transaction that its validators accept. -/
def validate (fields : CanonicalFields) : Except ReconError CanonicalFields := do
  let amount ← validateAmount fields.amount
  let currency ← validateCurrency fields.currency
  let accepted : CanonicalFields := { fields with
    amount, currency
    originalCurrency := fields.originalCurrency.map fun text => (strip text).toUpper
    reversesReference := fields.reversesReference.map strip }
  accepted.validateConsistency
  accepted.validateReversal
  return accepted

end CanonicalFields

/-! ## Exactness -/

/-- The minor units are the amount in units of the currency's exponent. -/
def Exact (amount : Decimal) (currency : String) (minorUnits : Int) : Prop :=
  ∃ value exponent, amount = .finite value ∧ currencyExponent currency = some exponent ∧
    value * 10 ^ exponent = minorUnits

/-- The amount has no more decimals than its currency, and no more digits than the context keeps. -/
def FitsMinorUnit (amount : Decimal) (currency : String) : Prop :=
  ∃ value exponent, amount = .finite value ∧ currencyExponent currency = some exponent ∧
    (∃ n : Int, value * 10 ^ exponent = n) ∧ Numeric.Representable contextPrecision value

theorem truncate_intCast (n : Int) : truncate n = n := by
  unfold truncate
  split <;> simp

theorem representable_intCast {n : Int} (h : |n| ≤ 10 ^ 28) :
    Numeric.Representable contextPrecision (n : Rat) := ⟨n, 0, h, by simp⟩

/-- Rounding keeps a number beyond the integers of 28 digits beyond them. -/
theorem le_abs_rounded {x : Rat} {e : Int} (h : (10 : Rat) ^ e * 10 ^ 28 ≤ |x|) :
    (10 : Rat) ^ e * 10 ^ 28 ≤ |rounded x| := by
  have hrep : Numeric.Representable contextPrecision ((10 : Rat) ^ e * 10 ^ 28) :=
    ⟨10 ^ 28, e, by norm_num [contextPrecision], by push_cast; ring⟩
  have hneg : Numeric.Representable contextPrecision (-((10 : Rat) ^ e * 10 ^ 28)) :=
    ⟨-10 ^ 28, e, by norm_num [contextPrecision], by push_cast; ring⟩
  rcases le_abs.mp h with hpos | hnegative
  · exact (Numeric.le_roundDigits (by decide) hrep hpos).trans (le_abs_self _)
  · have hle := Numeric.roundDigits_le (by decide) hneg (le_neg_of_le_neg hnegative)
    exact (le_neg_of_le_neg hle).trans (neg_le_abs _)

/-- In units in which a number is an integer, what is kept of it is one. -/
theorem rounded_isInt {x : Rat} {e : Int} {n : Int} (h : x * (10 : Rat) ^ e = n) :
    ∃ k : Int, rounded x * (10 : Rat) ^ e = k := by
  have hunit : (0 : Rat) < 10 ^ e := by positivity
  have hscale : ∀ y : Rat, (10 : Rat) ^ (-e) * 10 ^ 28 ≤ |y| ↔ 10 ^ 28 ≤ |y * 10 ^ e| := by
    intro y
    rw [zpow_neg, inv_mul_le_iff₀ hunit, abs_mul, abs_of_pos hunit, mul_comm]
  by_cases hsmall : |n| ≤ 10 ^ 28
  · have hx : x = n * (10 : Rat) ^ (-e) := by
      rw [← h, mul_assoc, ← zpow_add₀ (by norm_num), add_neg_cancel, zpow_zero, mul_one]
    have hkept : rounded x = x :=
      Numeric.roundDigits_of_representable (by decide) ⟨n, -e, hsmall, hx⟩
    exact ⟨n, by rw [hkept, h]⟩
  · have hlarge : (10 : Rat) ^ 28 ≤ |x * 10 ^ e| := by
      rw [h]
      exact_mod_cast (not_le.mp hsmall).le
    have hkept := (hscale _).mp (le_abs_rounded ((hscale x).mpr hlarge))
    rcases ((Numeric.representable_roundDigits contextPrecision x).shift e).place 0 with
      ⟨k, hk⟩ | hbound
    · exact ⟨k, by simpa [rounded] using hk⟩
    · have hcontra := hkept.trans hbound
      norm_num [contextPrecision] at hcontra

/-- The cut shows the minor units exactly when nothing is cut. -/
theorem truncate_rounded_eq {x : Rat} {minorUnits : Int} (h : truncate (rounded x) = minorUnits) :
    x = minorUnits ↔ (∃ n : Int, x = n) ∧ Numeric.Representable contextPrecision x := by
  constructor
  · intro hx
    obtain ⟨k, hk⟩ := rounded_isInt (x := x) (e := 0) (by simpa using hx)
    have hkept : rounded x = x := by
      rw [zpow_zero, mul_one] at hk
      rw [hk, truncate_intCast] at h
      rw [hk, hx, h]
    exact ⟨⟨minorUnits, hx⟩, hkept ▸ Numeric.representable_roundDigits contextPrecision x⟩
  · rintro ⟨⟨n, hn⟩, hrep⟩
    have hkept : rounded x = x := Numeric.roundDigits_of_representable (by decide) hrep
    rw [hkept, hn, truncate_intCast] at h
    rw [hn, h]

/-! ## The comparison -/

theorem exponentOf_ok {currency : String} {exponent : Nat} (h : exponentOf currency = .ok exponent) :
    currencyExponent currency = some exponent := by
  unfold exponentOf at h
  cases hcurrency : currencyExponent currency with
  | none =>
    rw [hcurrency] at h
    cases h
  | some found =>
    rw [hcurrency] at h
    exact congrArg some (Except.ok.inj h)

/-- What `int(amount.scaleb(exponent))` succeeds with. -/
theorem scaleb_toInt_ok {amount : Decimal} {exponent minorUnits : Int}
    (h : (amount.scaleb exponent >>= Decimal.toInt) = .ok minorUnits) :
    ∃ value, amount = .finite value ∧
      truncate (rounded (value * (10 : Rat) ^ exponent)) = minorUnits := by
  obtain ⟨scaled, hscaled, hint⟩ := except_bind_ok h
  cases amount with
  | finite value =>
    simp only [Decimal.scaleb] at hscaled
    split at hscaled
    · cases hscaled
    · obtain rfl := Except.ok.inj hscaled
      refine ⟨value, rfl, ?_⟩
      rw [← contextRound_eq_rounded]
      exact Except.ok.inj hint
  | infinite =>
    cases hscaled
    cases hint
  | nan =>
    cases hscaled
    cases hint
  | signalingNan => cases hscaled

/-- What passes the comparison is exact exactly when the amount fits the minor unit. -/
theorem exact_iff_of_compared {amount : Decimal} {currency : String} {exponent : Nat}
    {minorUnits : Int} (hcurrency : exponentOf currency = .ok exponent)
    (h : (amount.scaleb exponent >>= Decimal.toInt) = .ok minorUnits) :
    Exact amount currency minorUnits ↔ FitsMinorUnit amount currency := by
  have hexponent := exponentOf_ok hcurrency
  obtain ⟨value, rfl, hcut⟩ := scaleb_toInt_ok h
  rw [zpow_natCast] at hcut
  have hiff := truncate_rounded_eq hcut
  have hdigits : Numeric.Representable contextPrecision (value * 10 ^ exponent) ↔
      Numeric.Representable contextPrecision value := by
    constructor
    · intro hrep
      have hback := hrep.shift (-(exponent : Int))
      rwa [← zpow_natCast, mul_assoc, ← zpow_add₀ (by norm_num), add_neg_cancel, zpow_zero,
        mul_one] at hback
    · intro hrep
      have hforth := hrep.shift (exponent : Int)
      rwa [zpow_natCast] at hforth
  rw [hdigits] at hiff
  constructor
  · rintro ⟨value', exponent', hvalue, hexponent', hexact⟩
    obtain rfl := Decimal.finite.inj hvalue
    obtain rfl := Option.some.inj (hexponent.symm.trans hexponent')
    exact ⟨value, exponent, rfl, hexponent, hiff.mp hexact⟩
  · rintro ⟨value', exponent', hvalue, hexponent', hfits⟩
    obtain rfl := Decimal.finite.inj hvalue
    obtain rfl := Option.some.inj (hexponent.symm.trans hexponent')
    exact ⟨value, exponent, rfl, hexponent, hiff.mpr hfits⟩

namespace Money

/-- What is built is what was given, and passed the comparison. -/
theorem construct_ok {amount : Decimal} {currency : String} {minorUnits : Int} {m : Money}
    (h : construct amount currency minorUnits = .ok m) :
    m = ⟨amount, currency, minorUnits⟩ ∧ ∃ exponent : Nat, exponentOf currency = .ok exponent ∧
      (amount.scaleb exponent >>= Decimal.toInt) = .ok minorUnits := by
  obtain ⟨exponent, hexponent, h⟩ := except_bind_ok h
  obtain ⟨scaled, hscaled, h⟩ := except_bind_ok h
  obtain ⟨expected, hexpected, h⟩ := except_bind_ok h
  by_cases heq : expected = minorUnits
  · subst heq
    simp only [ne_eq, not_true_eq_false, if_false, pure, Except.pure, bind, Except.bind] at h
    refine ⟨(Except.ok.inj h).symm, exponent, hexponent, ?_⟩
    rw [hscaled]
    exact hexpected
  · simp [heq, bind, Except.bind, throw, throwThe, MonadExceptOf.throw] at h

/-- **The class itself**: exact exactly when the amount fits the minor unit. -/
theorem construct_exact_iff {amount : Decimal} {currency : String} {minorUnits : Int} {m : Money}
    (h : construct amount currency minorUnits = .ok m) :
    Exact m.amount m.currency m.minorUnits ↔ FitsMinorUnit amount currency := by
  obtain ⟨rfl, exponent, hexponent, hcompared⟩ := construct_ok h
  exact exact_iff_of_compared hexponent hcompared

theorem fromMinorUnits_exact {minorUnits : Int} {currency : String} {m : Money}
    (h : fromMinorUnits minorUnits currency = .ok m) :
    m.minorUnits = minorUnits ∧ Exact m.amount m.currency m.minorUnits := by
  obtain ⟨exponent, hexponent, h⟩ := except_bind_ok h
  obtain ⟨amount, hamount, h⟩ := except_bind_ok h
  refine ⟨by rw [(construct_ok h).1], (construct_exact_iff h).mpr ?_⟩
  simp only [Decimal.scaleb] at hamount
  split at hamount
  · cases hamount
  · obtain rfl := Except.ok.inj hamount
    rw [contextRound_eq_rounded]
    refine ⟨_, exponent, rfl, exponentOf_ok hexponent, ?_,
      Numeric.representable_roundDigits contextPrecision _⟩
    have hunits : (minorUnits : Rat) * 10 ^ (-(exponent : Int)) * 10 ^ (exponent : Int) =
        minorUnits := by
      rw [mul_assoc, ← zpow_add₀ (by norm_num), neg_add_cancel, zpow_zero, mul_one]
    obtain ⟨k, hk⟩ := rounded_isInt hunits
    exact ⟨k, by rwa [zpow_natCast] at hk⟩

theorem fromDecimal_exact {amount : Option Decimal} {currency : String} {rounding : Rounding}
    {m : Money} (h : fromDecimal amount currency rounding = .ok m) :
    Exact m.amount m.currency m.minorUnits := by
  obtain ⟨exponent, hexponent, h⟩ := except_bind_ok h
  cases amount with
  | none => cases h
  | some amount =>
    obtain ⟨quantized, hquantized, h⟩ := except_bind_ok h
    obtain ⟨scaled, hscaled, h⟩ := except_bind_ok h
    obtain ⟨minorUnits, hminor, h⟩ := except_bind_ok h
    refine (construct_exact_iff h).mpr ?_
    cases amount with
    | finite value =>
      simp only [Decimal.quantize] at hquantized
      split at hquantized
      · cases hquantized
      · rename_i hlimit
        obtain rfl := Except.ok.inj hquantized
        have hsmall : |rounding.apply (value * 10 ^ exponent)| ≤ 10 ^ 28 := (not_le.mp hlimit).le
        refine ⟨_, exponent, rfl, exponentOf_ok hexponent,
          ⟨rounding.apply (value * 10 ^ exponent), by field_simp⟩,
          ⟨rounding.apply (value * 10 ^ exponent), -(exponent : Int), hsmall, ?_⟩⟩
        rw [zpow_neg, zpow_natCast, div_eq_mul_inv]
    | infinite => cases hquantized
    | nan =>
      obtain rfl := Except.ok.inj hquantized
      cases hscaled
      cases hminor
    | signalingNan => cases hquantized

/-! ## Sums -/

/-- A sum is exact, and adds the minor units. -/
theorem add_exact {a b m : Money} (h : a.add b = .ok m) :
    m.minorUnits = a.minorUnits + b.minorUnits ∧ Exact m.amount m.currency m.minorUnits := by
  obtain ⟨-, -, h⟩ := except_bind_ok h
  exact fromMinorUnits_exact h

theorem sub_exact {a b m : Money} (h : a.sub b = .ok m) :
    m.minorUnits = a.minorUnits - b.minorUnits ∧ Exact m.amount m.currency m.minorUnits := by
  obtain ⟨-, -, h⟩ := except_bind_ok h
  exact fromMinorUnits_exact h

theorem foldlM_sumStep {currency : String} {amounts : List Money} :
    ∀ {start total : Int}, amounts.foldlM (sumStep currency) start = .ok total →
      total = start + (amounts.map (·.minorUnits)).sum := by
  induction amounts with
  | nil =>
    intro start total h
    obtain rfl := Except.ok.inj h
    simp
  | cons amount amounts ih =>
    intro start total h
    rw [List.foldlM_cons] at h
    obtain ⟨next, hnext, h⟩ := except_bind_ok h
    unfold sumStep at hnext
    split at hnext
    · cases hnext
    · obtain rfl := Except.ok.inj hnext
      rw [ih h, List.map_cons, List.sum_cons, add_assoc]

theorem sumMoney_exact {amounts : List Money} {currency : String} {m : Money}
    (h : sumMoney amounts currency = .ok m) :
    m.minorUnits = (amounts.map (·.minorUnits)).sum ∧
      Exact m.amount m.currency m.minorUnits := by
  obtain ⟨total, htotal, h⟩ := except_bind_ok h
  obtain ⟨hunits, hexact⟩ := fromMinorUnits_exact h
  refine ⟨?_, hexact⟩
  rw [hunits, foldlM_sumStep htotal, zero_add]

end Money

namespace CanonicalFields

/-- The canonical transaction passed the same comparison. -/
theorem validateConsistency_ok {fields : CanonicalFields} (h : fields.validateConsistency = .ok ()) :
    ∃ exponent : Nat, exponentOf fields.currency = .ok exponent ∧
      (fields.amount.scaleb exponent >>= Decimal.toInt) = .ok fields.amountMinor := by
  obtain ⟨exponent, hexponent, h⟩ := except_bind_ok h
  refine ⟨exponent, hexponent, ?_⟩
  by_cases hgiven : (exponent : Int) = fields.currencyExponentValue
  · simp only [hgiven, ne_eq, not_true_eq_false, if_false] at h
    obtain ⟨scaled, hscaled, h⟩ := except_bind_ok h
    obtain ⟨expected, hexpected, h⟩ := except_bind_ok h
    rw [hgiven, hscaled]
    by_cases heq : expected = fields.amountMinor
    · exact heq ▸ hexpected
    · simp [heq, throw, throwThe, MonadExceptOf.throw] at h
  · simp [hgiven, bind, Except.bind, throw, throwThe, MonadExceptOf.throw] at h

/-- A transaction that its validators accept is exact exactly when its amount fits. -/
theorem validate_exact_iff {fields accepted : CanonicalFields} (h : fields.validate = .ok accepted) :
    Exact accepted.amount accepted.currency accepted.amountMinor ↔
      FitsMinorUnit accepted.amount accepted.currency := by
  obtain ⟨amount, -, h⟩ := except_bind_ok h
  obtain ⟨currency, -, h⟩ := except_bind_ok h
  obtain ⟨⟨⟩, hconsistent, h⟩ := except_bind_ok h
  obtain ⟨-, -, h⟩ := except_bind_ok h
  obtain rfl := Except.ok.inj h
  obtain ⟨exponent, hexponent, hcompared⟩ := validateConsistency_ok hconsistent
  exact exact_iff_of_compared hexponent hcompared

theorem validateAmount_ok {amount accepted : Decimal} (h : validateAmount amount = .ok accepted) :
    accepted = amount := by
  unfold validateAmount at h
  split at h
  · split at h
    · cases h
    · exact (Except.ok.inj h).symm
  · cases h

/-- The amount and the currency are those given, but for blanks and case. -/
theorem validate_amount {fields accepted : CanonicalFields} (h : fields.validate = .ok accepted) :
    accepted.amount = fields.amount ∧ accepted.currency = (strip fields.currency).toUpper := by
  obtain ⟨amount, hamount, h⟩ := except_bind_ok h
  obtain ⟨currency, hcurrency, h⟩ := except_bind_ok h
  obtain ⟨-, -, h⟩ := except_bind_ok h
  obtain ⟨-, -, h⟩ := except_bind_ok h
  obtain rfl := Except.ok.inj h
  constructor
  · exact validateAmount_ok hamount
  · unfold validateCurrency at hcurrency
    split at hcurrency <;> cases hcurrency
    rfl

end CanonicalFields

/-- **Money is exact** where both numbers are given and the amount fits the minor unit, and always
where one of them is made from the other. -/
theorem money_exact (amount : Decimal) (given : Option Decimal) (currency : String)
    (minorUnits : Int) (rounding : Rounding) (fields accepted : CanonicalFields) (a b m : Money)
    (amounts : List Money) :
    (Money.construct amount currency minorUnits = .ok m →
        (Exact m.amount m.currency m.minorUnits ↔ FitsMinorUnit amount currency)) ∧
      (fields.validate = .ok accepted →
        (Exact accepted.amount accepted.currency accepted.amountMinor ↔
          FitsMinorUnit fields.amount (strip fields.currency).toUpper)) ∧
      (Money.fromDecimal given currency rounding = .ok m →
        Exact m.amount m.currency m.minorUnits) ∧
      (Money.fromMinorUnits minorUnits currency = .ok m →
        m.minorUnits = minorUnits ∧ Exact m.amount m.currency m.minorUnits) ∧
      (a.add b = .ok m →
        m.minorUnits = a.minorUnits + b.minorUnits ∧ Exact m.amount m.currency m.minorUnits) ∧
      (a.sub b = .ok m →
        m.minorUnits = a.minorUnits - b.minorUnits ∧ Exact m.amount m.currency m.minorUnits) ∧
      (Money.sumMoney amounts currency = .ok m →
        m.minorUnits = (amounts.map (·.minorUnits)).sum ∧
          Exact m.amount m.currency m.minorUnits) := by
  refine ⟨Money.construct_exact_iff, fun h => ?_, Money.fromDecimal_exact,
    Money.fromMinorUnits_exact, Money.add_exact, Money.sub_exact, Money.sumMoney_exact⟩
  obtain ⟨hamount, hcurrency⟩ := CanonicalFields.validate_amount h
  rw [← hamount, ← hcurrency]
  exact CanonicalFields.validate_exact_iff h

/-- An amount of half a paisa: the comparison cuts the half. -/
def halfPaisa : Decimal := .finite (1005 / 1000)

/-- It is accepted with the whole paise. -/
theorem halfPaisa_accepted : ∃ m, Money.construct halfPaisa "INR" 100 = .ok m ∧
    ¬ Exact m.amount m.currency m.minorUnits := by
  have haccepted : Money.construct halfPaisa "INR" 100 = .ok ⟨halfPaisa, "INR", 100⟩ := by
    decide +kernel
  refine ⟨_, haccepted, ?_⟩
  rintro ⟨value, exponent, hvalue, hexponent, hexact⟩
  obtain rfl := Decimal.finite.inj hvalue
  obtain rfl := Option.some.inj (currencyExponent_inr.symm.trans hexponent)
  norm_num at hexact

end Domain

end Recon
