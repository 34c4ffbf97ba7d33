import ReconEngine.Exceptions.Routing
import ReconEngine.Matching.Fx
import ReconEngine.Matching.Rules

/-!
# What is wrong with a pair

`analyse_pair` names what separates an internal and an external record. For a pair that is not
matched the first finding that applies is the only one; a matched pair can have several, and its
amounts, currency and direction already agree. Dates are compared in business days.

**The law** (`analysePair_ok`): where both currencies can be converted, the analysis returns. Which
findings it returns is what `Exceptions.Findings` builds on.

**What it does not establish.** What happens to a pair in a currency without a rate: the analysis
raises then, and the classifier with it.
-/

set_option autoImplicit false

namespace Recon

structure PairContext where
  detection : DetectionConfig
  calendar : BusinessCalendar
  bank : Option BankConfig := none
  /-- The exchange rates, where there are any. -/
  fx : Option (String → Date → Option FxQuote) := none
  fxTolerancePercent : Rat := 3 / 2

def PairContext.settlementDays (ctx : PairContext) : Nat :=
  (ctx.bank.map BankConfig.settlementDays).getD 1

structure PairFinding where
  category : ExceptionCategory
  amountDifferenceMinor : Option Int := none
  daysOffset : Option Int := none
  fuzzyConfidence : Option Rat := none
  fxVariancePercent : Option Rat := none
deriving DecidableEq, Repr

/-- An empty text counts as an absent one. -/
def nonBlank (text : Option String) : Option String := text.filter (· ≠ "")

def narrationOf (t : NormalisedTransaction) : String :=
  (nonBlank t.narrationNormalised <|> t.narration).getD ""

def hasRegulatoryHold (t : NormalisedTransaction) (detection : DetectionConfig) : Bool :=
  detection.regulatoryHold (narrationOf t)

def isPostedReversal (t : NormalisedTransaction) (detection : DetectionConfig) : Bool :=
  t.isReversal || detection.reversal (narrationOf t)

section

variable (internal external : NormalisedTransaction) (ctx : PairContext)

/-- The references differ, and the shorter is the longer cut at the bank's length. -/
def isTruncatedPair (detection : DetectionConfig) : Bool :=
  let a := (internal.normalisedReference.getD "").toList
  let b := (external.normalisedReference.getD "").toList
  if a = [] ∨ b = [] ∨ a = b then false
  else
    let short := if a.length < b.length then a else b
    let long := if a.length < b.length then b else a
    short.length == detection.truncatedReferenceLength && short.isPrefixOf long

def FeeScheduleConfig.expectedFeeMinor (schedule : FeeScheduleConfig) (amountMinor : Int) : Int :=
  schedule.fixedMinor + halfEven (amountMinor * schedule.percent / 100)

/-- `_fee_explains`: the gap, if it is the bank's fee. A fee is taken out of an incoming credit and
added to an outgoing debit. -/
def feeExplains : Option Int := do
  let bank ← ctx.bank
  let schedule ← bank.feeSchedule
  let fee := schedule.expectedFeeMinor internal.amountMinor
  let gap := if internal.direction = .cr then internal.amountMinor - external.amountMinor
    else external.amountMinor - internal.amountMinor
  if 0 < fee ∧ 0 < gap ∧ |gap - fee| ≤ schedule.toleranceMinor then some gap else none

def microsecondsPerHour : Int := 3600 * 1000000

/-- `_date_finding`. Two days that a weekend separates are at least one day apart. -/
def dateFinding : Option PairFinding :=
  if internal.txnDate = external.txnDate then none
  else if daysApart internal external = 1 ∧
      |internal.txnTimestampUtc - external.txnTimestampUtc| <
        ctx.detection.timezoneOffsetMaxGapHours * microsecondsPerHour then
    some { category := .timezoneOffset, daysOffset := some 1 }
  else
    let businessDays := ctx.calendar.businessDaysBetween internal.txnDate external.txnDate
    some { category := .dateMismatch, daysOffset := some (max 1 businessDays : Nat) }

/-- `_settlement_delay`. -/
def settlementDelay : Option PairFinding :=
  let settled := external.settlementDate.getD external.txnDate
  let late := ctx.calendar.businessDaysBetween internal.txnDate settled
  if late ≤ ctx.settlementDays then none
  else some { category := .settlementDelay, daysOffset := some (late : Int) }

/-- `_currency_finding`: the amounts are compared in INR when both have a rate. -/
def currencyFinding : Except ReconError PairFinding :=
  let plain : PairFinding := { category := .currencyMismatch }
  match ctx.fx with
  | none => .ok plain
  | some quote =>
    match quote internal.currency internal.txnDate, quote external.currency external.txnDate with
    | some q, some r => do
      let internalInr ← toInrMinor internal.amountMinor internal.currency q.rateInr
      let externalInr ← toInrMinor external.amountMinor external.currency r.rateInr
      let variance := relativeDifferencePercent internalInr externalInr
      if variance ≤ ctx.fxTolerancePercent then return plain
      else return { category := .fxVariance, fxVariancePercent := some variance }
    | _, _ => .ok plain

/-- `_hold`. -/
def holdFinding : Option PairFinding :=
  if hasRegulatoryHold internal ctx.detection || hasRegulatoryHold external ctx.detection then
    some { category := .regulatoryHold }
  else none

/-- `_truncation_finding`. -/
def truncationFinding (confidence : Option Rat) : PairFinding :=
  { category := .referenceTruncated, fuzzyConfidence := confidence }

/-- `_amount_finding`. -/
def amountFinding : PairFinding :=
  let difference := |internal.amountMinor - external.amountMinor|
  match feeExplains internal external ctx with
  | some _ => { category := .feeDeduction, amountDifferenceMinor := some difference }
  | none => { category := .amountMismatch, amountDifferenceMinor := some difference }

/-- `_analyse_matched`. -/
def analyseMatched (confidence : Option Rat) : List PairFinding :=
  (holdFinding internal external ctx).toList ++
    (if isTruncatedPair internal external ctx.detection then [truncationFinding confidence]
      else []) ++
    (dateFinding internal external ctx).toList ++ (settlementDelay internal external ctx).toList

/-- `_analyse_unmatched`. An opposite direction with another amount is no reversal. -/
def analyseUnmatched (confidence : Option Rat) : Except ReconError (List PairFinding) :=
  let sameMoney := internal.amountMinor = external.amountMinor ∧ internal.currency = external.currency
  if internal.direction ≠ external.direction then
    if sameMoney then .ok [{ category := .directionReversal }] else .ok []
  else if internal.currency ≠ external.currency then
    (currencyFinding internal external ctx).map fun finding => [finding]
  else if sameMoney ∧ isTruncatedPair internal external ctx.detection then
    .ok [truncationFinding confidence]
  else if internal.amountMinor ≠ external.amountMinor then
    .ok [amountFinding internal external ctx]
  else .ok (dateFinding internal external ctx).toList

/-- `analyse_pair`: every finding, the most important first. -/
def analysePair (isMatched : Bool) (confidence : Option Rat := none) :
    Except ReconError (List PairFinding) :=
  if isMatched then .ok (analyseMatched internal external ctx confidence)
  else
    match holdFinding internal external ctx with
    | some hold => .ok [hold]
    | none => analyseUnmatched internal external ctx confidence

end

/-! ## What the analysis guarantees -/

/-- An amount in a known currency has a value in paise. -/
theorem toInrMinor_ok (amountMinor : Int) {currency : String} (rateInr : Rat)
    (h : (currencyExponent currency).isSome = true) :
    ∃ inr, toInrMinor amountMinor currency rateInr = .ok inr := by
  obtain ⟨exponent, hexponent⟩ := Option.isSome_iff_exists.mp h
  unfold toInrMinor
  rw [hexponent]
  by_cases hinr : currency = "INR"
  · exact ⟨amountMinor, if_pos hinr⟩
  · exact ⟨_, if_neg hinr⟩

/-- Two known currencies can be compared. -/
theorem currencyFinding_ok {internal external : NormalisedTransaction} (ctx : PairContext)
    (hi : (currencyExponent internal.currency).isSome = true)
    (he : (currencyExponent external.currency).isSome = true) :
    ∃ finding, currencyFinding internal external ctx = .ok finding := by
  unfold currencyFinding
  split
  · exact ⟨_, rfl⟩
  · split
    · rename_i q r _ _
      obtain ⟨a, ha⟩ := toInrMinor_ok internal.amountMinor q.rateInr hi
      obtain ⟨b, hb⟩ := toInrMinor_ok external.amountMinor r.rateInr he
      rw [ha, hb]
      show ∃ finding, (if relativeDifferencePercent a b ≤ ctx.fxTolerancePercent then _ else _) = _
      split <;> exact ⟨_, rfl⟩
    · exact ⟨_, rfl⟩

/-- A pair in known currencies can be analysed. -/
theorem analysePair_ok {internal external : NormalisedTransaction} (ctx : PairContext)
    (isMatched : Bool) (confidence : Option Rat)
    (hi : (currencyExponent internal.currency).isSome = true)
    (he : (currencyExponent external.currency).isSome = true) :
    ∃ findings, analysePair internal external ctx isMatched confidence = .ok findings := by
  obtain ⟨finding, hfinding⟩ := currencyFinding_ok ctx hi he
  unfold analysePair
  split
  · exact ⟨_, rfl⟩
  · split
    · exact ⟨_, rfl⟩
    · unfold analyseUnmatched
      rw [hfinding]
      dsimp only
      split_ifs <;> exact ⟨_, rfl⟩

end Recon
