import ReconEngine.Ingestion.DateNotation
import ReconEngine.Samples.Amounts

/-!
# Entries of sample statements

What the writers of MT940 and CAMT.053 have in common: the entries, what an entry does to a balance,
and the amounts, which the balance check reads back.

**The law** (`toMinor_of_decimalText`): an amount is read back as far as the decimal context keeps it.
The writer and the reader both round to its digits, and what is rounded once stays as it is.

**What it does not establish.** Amounts with more digits than the context keeps are not read back,
and the generator makes none.
-/

set_option autoImplicit false

namespace Recon.Samples

open JsonText

/-! ## Entries -/

/-- One line of a statement. -/
structure Entry where
  ref : String
  day : Date
  amountMinor : Int
  direction : Direction
  counterparty : Option String := none
  narration : String := ""
  currency : String := "INR"
  settleDay : Option Date := none
  reversal : Bool := false
deriving DecidableEq, Repr

/-- `_MT940_DEFAULT_OPENING_MINOR`. -/
def mt940DefaultOpeningMinor : Int := 100000000

/-- `_signed`: a credit adds, a debit subtracts; a reversal does the opposite. -/
def signed (e : Entry) : Int :=
  let sign : Int := if e.direction = .cr then 1 else -1
  if e.reversal then -sign * e.amountMinor else sign * e.amountMinor

/-- The first day of some entries, 2026-01-01 where there are none. -/
def firstDay (entries : List Entry) : Date := (entries.map (·.day)).min?.getD 739617

def lastDay (entries : List Entry) : Date := (entries.map (·.day)).max?.getD (firstDay entries)

/-- A library that reads the dates and the decimals of statements, and the ASCII marks and codes. -/
def reading (lib : TextLibrary) : TextLibrary :=
  { lib with strptime := strptimeDay lib.strptime, decimal := readDecimal, upper := String.toUpper }

@[simp] theorem reading_strptime (lib : TextLibrary) :
    (reading lib).strptime = strptimeDay lib.strptime := rfl

@[simp] theorem reading_decimal (lib : TextLibrary) : (reading lib).decimal = readDecimal := rfl

@[simp] theorem reading_upper (lib : TextLibrary) : (reading lib).upper = String.toUpper := rfl

/-! ## Amounts are read back -/

theorem currencyExponent_le {currency : String} {exponent : Nat}
    (h : currencyExponent currency = some exponent) : exponent ≤ 3 := by
  have htable : ∀ entry ∈ currencyExponents, entry.2 ≤ 3 := by decide
  unfold currencyExponent at h
  rw [List.lookup_eq_some_iff] at h
  obtain ⟨before, after, htable', -⟩ := h
  exact htable (currency.toUpper, exponent) (by rw [htable']; simp)

theorem amountText_ne_empty (exponent units : Nat) (separator : Char) :
    amountText exponent units separator ≠ "" := by
  intro h
  have hlist := congrArg String.toList h
  simp [amountText, digits_ne_nil] at hlist

/-- An amount has no blanks around it. -/
theorem strip_amountText {exponent units : Nat} {separator : Char} :
    strip (amountText exponent units separator) = amountText exponent units separator := by
  obtain ⟨first, rest, hdigits, -⟩ := digits_head (units / 10 ^ exponent)
  have hfirst : first.isDigit = true :=
    digits_isDigit (n := units / 10 ^ exponent) (by rw [hdigits]; exact List.mem_cons_self)
  refine strip_ofList ?_ ?_
  · intro c hc
    rw [hdigits] at hc
    cases hc
    exact hfirst
  · by_cases hzero : exponent = 0
    · intro c hc
      rw [if_pos hzero, List.append_nil] at hc
      exact digits_isDigit (List.mem_of_getLast? hc)
    · rw [if_neg hzero]
      refine last_isDigit isDigit_padded ?_ _
      obtain ⟨width, rfl⟩ := Nat.exists_eq_succ_of_ne_zero hzero
      simp [padded]

/-- The point is put back. -/
theorem replaceText_amountText (exponent units : Nat) {separator : Char}
    (hseparator : separator.isDigit = false) :
    replaceText (amountText exponent units separator) (String.singleton separator) "." =
      String.ofList (fixedDigits exponent units) := by
  have hwhole : ∀ x ∈ digits (units / 10 ^ exponent), x.isDigit = true :=
    fun x hx => digits_isDigit hx
  unfold amountText fixedDigits
  by_cases hzero : exponent = 0
  · rw [if_pos hzero, if_pos hzero, List.append_nil, replaceText_singleton,
      flatMap_replace_of_not_mem (not_mem_of_isDigit hwhole hseparator)]
  · rw [if_neg hzero, if_neg hzero, replaceText_point hwhole isDigit_padded hseparator]

/-- An amount is kept when it does not overflow and rounding leaves it. -/
theorem kept_iff {n : Int} : Kept n ↔ overflows (keptUnits n : Rat) = false ∧ keptUnits n = n := by
  unfold Kept
  rw [rounded_intCast]
  constructor
  · intro h
    have hkept : keptUnits n = n := by exact_mod_cast h.1
    exact ⟨by rw [hkept, h.2], hkept⟩
  · intro h
    exact ⟨by rw [h.2], by rw [← h.2, h.1]⟩

section

variable (lib : TextLibrary) {currency : String} {exponent : Nat}

/-- What the balance check makes of a text of so many minor units. -/
theorem toMinor_amountText (hcurrency : currencyExponent currency = some exponent) {units : Nat}
    (hshort : (digits units).length ≤ 999999999999999999) {separator : Char}
    (hseparator : separator.isDigit = false) :
    toMinor (reading lib) (some (amountText exponent units separator)) currency
        (String.singleton separator) =
      if overflows (rounded units) then .error (.arithmetic "Overflow")
      else .ok (some (halfEven (rounded units))) := by
  have hexponent := currencyExponent_le hcurrency
  have hblank : nonBlank (some (amountText exponent units separator)) =
      some (amountText exponent units separator) := by
    simp [nonBlank, amountText_ne_empty]
  have hread : readDecimal (String.ofList (fixedDigits exponent units)) =
      .finite (units / 10 ^ exponent) := readDecimal_fixedDigits (by omega) hshort
  have hunits : (units : Rat) / 10 ^ exponent * 10 ^ exponent = units :=
    div_mul_cancel₀ _ (by positivity)
  simp only [toMinor, hblank, strip_amountText, replaceText_amountText _ _ hseparator, reading_decimal,
    reading_upper, hread, hcurrency, hunits, contextRound_eq_rounded]

/-- A number that is written has not too many digits. -/
theorem length_digits_of_not_overflows {n : Int}
    (h : overflows ((n : Rat) * (10 : Rat) ^ (-(exponent : Int))) = false) (hexponent : exponent ≤ 3) :
    (digits n.natAbs).length ≤ 999999999999999999 := by
  by_cases hn : n = 0
  · subst hn
    decide
  · have hne : (n : Rat) ≠ 0 := by exact_mod_cast hn
    have hlog := log_le_of_not_overflows (mul_ne_zero hne (by positivity)) h
    rw [Numeric.log_shift hne, contextEmax] at hlog
    exact length_digits_le (by decide) (by omega)

/-- The text of an amount that was written. -/
theorem amountText_of_decimalText (hcurrency : currencyExponent currency = some exponent) {n : Int}
    (hn : 0 ≤ n) {separator : Char} {text : String}
    (h : decimalText n currency (String.singleton separator) = .ok text) :
    text = amountText exponent (keptUnits n).natAbs separator ∧
      (digits (keptUnits n).natAbs).length ≤ 999999999999999999 := by
  rw [decimalText_eq hn hcurrency] at h
  split at h
  · cases h
  · rename_i hfits
    exact ⟨(Except.ok.inj h).symm, length_digits_of_not_overflows (Bool.eq_false_iff.mpr hfits)
      (currencyExponent_le hcurrency)⟩

/-- **An amount is read back as far as the context keeps it.** -/
theorem toMinor_of_decimalText (hcurrency : currencyExponent currency = some exponent) {n : Int}
    (hn : 0 ≤ n) {separator : Char} (hseparator : separator.isDigit = false) {text : String}
    (h : decimalText n currency (String.singleton separator) = .ok text) :
    toMinor (reading lib) (some text) currency (String.singleton separator) =
      if overflows (keptUnits n : Rat) then .error (.arithmetic "Overflow")
      else .ok (some (keptUnits n)) := by
  obtain ⟨rfl, hshort⟩ := amountText_of_decimalText hcurrency hn h
  have hcast : (((keptUnits n).natAbs : Nat) : Rat) = keptUnits n := by
    rw [Nat.cast_natAbs, abs_of_nonneg (keptUnits_nonneg hn)]
  rw [toMinor_amountText lib hcurrency hshort hseparator, hcast, rounded_keptUnits, Numeric.halfEven_intCast]

theorem point_eq_singleton : "." = String.singleton '.' := by decide

/-- The text of an amount is read back as far as it is kept. -/
theorem toMinor_of_point (hcurrency : currencyExponent currency = some exponent) {n : Int}
    (hn : 0 ≤ n) {text : String} (h : decimalText n currency "." = .ok text) :
    text = amountText exponent (keptUnits n).natAbs '.' ∧
      toMinor (reading lib) (some text) currency "." =
        if overflows (keptUnits n : Rat) then .error (.arithmetic "Overflow")
        else .ok (some (keptUnits n)) := by
  rw [point_eq_singleton] at h ⊢
  exact ⟨(amountText_of_decimalText hcurrency hn h).1,
    toMinor_of_decimalText lib hcurrency hn (by decide) h⟩

/-- What can be read can be written. -/
theorem decimalText_of_not_overflows (hcurrency : currencyExponent currency = some exponent) {n : Int}
    (hn : 0 ≤ n) (h : overflows (keptUnits n : Rat) = false) (separator : Char) :
    decimalText n currency (String.singleton separator) =
      .ok (amountText exponent (keptUnits n).natAbs separator) := by
  rw [decimalText_eq hn hcurrency, overflows_shift h]
  rfl

/-- An amount that is kept is written and read back. -/
theorem written_of_kept (hcurrency : currencyExponent currency = some exponent) {n : Int}
    (h : Kept n) (hn : 0 ≤ n) {separator : Char} (hseparator : separator.isDigit = false) :
    ∃ text, decimalText n currency (String.singleton separator) = .ok text ∧
      toMinor (reading lib) (some text) currency (String.singleton separator) = .ok (some n) := by
  obtain ⟨hfits, hunits⟩ := kept_iff.mp h
  have htext := decimalText_of_not_overflows hcurrency hn hfits separator
  have hread := toMinor_of_decimalText lib hcurrency hn hseparator htext
  rw [hfits, hunits] at hread
  rw [hunits] at htext
  exact ⟨_, htext, hread⟩

end

/-- 10²⁸ + 1 has one digit too many. -/
theorem not_kept : ¬ Kept (10 ^ 28 + 1) := by
  intro h
  have hrep : Numeric.Representable contextPrecision (((10 ^ 28 + 1 : Int)) : Rat) :=
    h.1 ▸ Numeric.representable_roundDigits contextPrecision _
  obtain ⟨m, e, hm, heq⟩ := hrep
  rcases le_or_gt e 0 with hneg | hpos
  · -- the last place is no multiple of ten, so all digits count
    obtain ⟨k, rfl⟩ : ∃ k : Nat, e = -k := ⟨e.natAbs, by omega⟩
    have hint : m = (10 ^ 28 + 1) * 10 ^ k := by
      have hscaled : (m : Rat) = ((10 ^ 28 + 1 : Int) : Rat) * 10 ^ k := by
        rw [heq, zpow_neg, zpow_natCast, mul_assoc, inv_mul_cancel₀ (by positivity), mul_one]
      exact_mod_cast hscaled
    have hone : (1 : Int) ≤ 10 ^ k := one_le_pow₀ (by norm_num)
    have hlarge : (10 ^ 28 + 1 : Int) ≤ m := by
      rw [hint]
      nlinarith
    have hle := (le_abs_self m).trans hm
    norm_num [contextPrecision] at hle
    omega
  · obtain ⟨k, rfl⟩ : ∃ k : Nat, e = k + 1 := ⟨e.natAbs - 1, by omega⟩
    have hint : (10 ^ 28 + 1 : Int) = m * 10 ^ k * 10 := by
      have hscaled : ((10 ^ 28 + 1 : Int) : Rat) = (m : Rat) * 10 ^ k * 10 := by
        rw [heq, zpow_add₀ (by norm_num), zpow_natCast, zpow_one, mul_assoc]
      exact_mod_cast hscaled
    omega

/-- A payment of one rupee on 2026-03-01. -/
def onePayment (reversal : Bool) : Entry where
  ref := "PAY42"
  day := 739676
  amountMinor := 100
  direction := .cr
  reversal := reversal

/-! ## The check of a statement -/

/-- A check whose amounts can be read balances when its sums agree. -/
theorem ingestionCheck_ok {lib : TextLibrary} {header : Header} {rows : List ParsedRow}
    {separator : String} {opening closing : StatedBalance} {o c : Int} {values : List Int}
    (hstated : header.stated = some (opening, closing))
    (hopening : toMinor lib opening.amountRaw opening.currency separator = .ok (some o))
    (hclosing : toMinor lib closing.amountRaw closing.currency separator = .ok (some c))
    (hrows : rows.mapM (rowEntry lib opening.currency separator) = .ok (values.map some)) :
    ∃ check, ingestionCheck lib header rows separator = .ok (some check) ∧
      (check.balanced = true ↔
        o * (markSigns.lookup opening.mark).getD 1 + values.sum =
          c * (markSigns.lookup closing.mark).getD 1) := by
  have hsum : ((values.map some).filterMap id).sum = values.sum := by
    simp [List.filterMap_map]
  unfold ingestionCheck statementBalances
  simp only [hstated, hopening, hclosing, bind, Except.bind, pure, Except.pure, checkStatement_eq,
    hrows, Except.map, Functor.map, Except.ok.injEq, Option.some.injEq, exists_eq_left']
  simp only [BalanceCheck.balanced, BalanceCheck.differenceMinor, BalanceCheck.computedClosingMinor,
    countEntries_balances, countEntries_net, hsum, zero_add, beq_iff_eq, sub_eq_zero]
  exact eq_comm

end Recon.Samples
