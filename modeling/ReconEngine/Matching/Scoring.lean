import ReconEngine.Matching.Fx

/-!
# Weighted scoring

`score_candidate` blends four field scores and two gates into a confidence, rounds it once to
thousandths, and decides on the rounded value.

**The law of hard constraints** (`scoreCandidate_proposed`): whatever the weights and whatever the
library answers, nothing is proposed for a pair that differs in direction or currency. And only the
top band is matched without a person (`decideMatch_autoMatch`).

A float stands here as the decimal that `str` writes of it. The order of two floats is that of their
decimals, and `Decimal(str(x))` is the decimal itself. What float operations and the text similarity
library compute is a parameter; the decimal arithmetic of the blend is not, each of its operations
rounds to the digits of the context.

**What it does not establish.** The laws of floats and of the library are hypotheses of the results
that need them. The texts of the rationale are left out.
-/

set_option autoImplicit false

namespace Recon

/-- The float operations of the scoring, on the decimals of floats. -/
structure FloatArithmetic where
  add : Rat → Rat → Rat
  sub : Rat → Rat → Rat
  div : Rat → Rat → Rat

/-- Results of sixteen digits. -/
def sixteenDigits : FloatArithmetic where
  add x y := Numeric.roundDigits 16 (x + y)
  sub x y := Numeric.roundDigits 16 (x - y)
  div x y := Numeric.roundDigits 16 (x / y)

/-- What the scoring uses of the text similarity library, and of floats. -/
structure TextSimilarity where
  jaroWinkler : String → String → Rat
  levenshtein : String → String → Nat
  tokenSetRatio : String → String → Rat
  float : FloatArithmetic := sixteenDigits

structure MatchingWeights where
  reference : Rat
  amount : Rat
  date : Rat
  counterparty : Rat
  direction : Rat
  currency : Rat
deriving DecidableEq, Repr

structure MatchingThresholds where
  referenceJaroWinkler : Rat
  referenceLevenshteinMaxDistance : Nat
  referenceLevenshteinMinLength : Nat
  counterpartyTokenSetRatio : Rat
  autoMatchConfidence : Rat
  reviewConfidence : Rat
  minIndependentSignalsForAutoMatch : Nat
deriving DecidableEq, Repr

structure MatchingConfig where
  weights : MatchingWeights
  thresholds : MatchingThresholds
deriving DecidableEq, Repr

inductive MatchDecision where
  | autoMatch
  | review
  | noMatch
deriving DecidableEq, Repr

structure FieldScores where
  reference : Rat
  amount : Rat
  date : Rat
  counterparty : Rat
  direction : Rat
  currency : Rat
deriving DecidableEq, Repr

/-- A pair with its score; the confidence is in thousandths. -/
structure ScoredCandidate where
  internalTxn : NormalisedTransaction
  externalTxn : NormalisedTransaction
  confidence : Int
  fieldScores : FieldScores
  hardConstraintsPassed : Bool
  independentSignalCount : Nat
  decision : MatchDecision
deriving DecidableEq, Repr

/-! ## Fields -/

def isAsciiDigit (c : Char) : Bool := '0' ≤ c && c ≤ '9'

/-- Two references of one length that differ only where both have a digit. -/
def differsOnlyInDigits (first second : String) : Bool :=
  first != second && first.length == second.length &&
    (first.toList.zip second.toList).all fun (a, b) => a == b || isAsciiDigit a && isAsciiDigit b

def scoreReference (text : TextSimilarity) (t : MatchingThresholds) (internal external : String) :
    Rat :=
  if internal = external then 1
  else
    let jaroWinkler := text.jaroWinkler internal external
    if jaroWinkler > t.referenceJaroWinkler then jaroWinkler
    else
      let distance := text.levenshtein internal external
      if internal.length ≥ t.referenceLevenshteinMinLength ∧
          distance ≤ t.referenceLevenshteinMaxDistance then
        text.float.sub 1 (text.float.div distance (t.referenceLevenshteinMaxDistance + 1))
      else 0

def scoreAmount (internal external tolerance : Int) : Rat :=
  if internal = external then 1
  else if |internal - external| ≤ tolerance then 4 / 5
  else 0

def scoreDate (internal external : Date) : Rat :=
  match (internal - external).natAbs with
  | 0 => 1
  | 1 => 4 / 5
  | 2 => 1 / 2
  | _ => 0

def scoreCounterparty (text : TextSimilarity) (internal external : Option String) : Rat :=
  match internal, external with
  | some a, some b => if a.isEmpty || b.isEmpty then 0 else text.float.div (text.tokenSetRatio a b) 100
  | _, _ => 0

def scoreGate {α : Type} [DecidableEq α] (internal external : α) : Rat :=
  if internal = external then 1 else 0

/-! ## The decision -/

def decideMatch (confidence : Int) (hardConstraintsPassed : Bool) (independentSignalCount : Nat)
    (t : MatchingThresholds) (uncorroboratedDigitVariance : Bool) : MatchDecision :=
  if !hardConstraintsPassed then .noMatch
  else if (confidence : Rat) / 1000 > t.autoMatchConfidence then
    if independentSignalCount < t.minIndependentSignalsForAutoMatch then .review
    else if uncorroboratedDigitVariance then .review
    else .autoMatch
  else if (confidence : Rat) / 1000 ≥ t.reviewConfidence then .review
  else .noMatch

def fieldScores (text : TextSimilarity) (amountToleranceMinor : Int) (config : MatchingConfig)
    (internal external : NormalisedTransaction) : FieldScores where
  reference := scoreReference text config.thresholds (internal.normalisedReference.getD "")
    (external.normalisedReference.getD "")
  amount := scoreAmount internal.amountMinor external.amountMinor amountToleranceMinor
  date := scoreDate internal.txnDate external.txnDate
  counterparty := scoreCounterparty text internal.counterpartyNameNormalised
    external.counterpartyNameNormalised
  direction := scoreGate internal.direction external.direction
  currency := scoreGate internal.currency external.currency

/-- One more product on the weighted sum. -/
def addWeighted (total : Rat) (part : Rat × Rat) : Rat := rounded (total + rounded (part.1 * part.2))

/-- The weighted sum, every product and every sum of it in the decimal context. -/
def FieldScores.rawConfidence (f : FieldScores) (w : MatchingWeights) : Rat :=
  [(f.amount, w.amount), (f.date, w.date), (f.counterparty, w.counterparty),
    (f.direction, w.direction), (f.currency, w.currency)].foldl addWeighted
      (rounded (f.reference * w.reference))

/-- The weighted sum, half-even in thousandths. -/
def FieldScores.confidence (f : FieldScores) (w : MatchingWeights) : Int :=
  halfEven (f.rawConfidence w * 1000)

/-- How many of the four fields clear their own threshold. -/
def FieldScores.independentSignals (f : FieldScores) (t : MatchingThresholds) : Nat :=
  [decide (f.reference > t.referenceJaroWinkler ∨ f.reference = 1), decide (f.amount ≥ 4 / 5),
    decide (f.date ≥ 4 / 5), decide (f.counterparty ≥ t.counterpartyTokenSetRatio)].countP id

def scoreCandidate (text : TextSimilarity) (amountToleranceMinor : Int) (config : MatchingConfig)
    (internal external : NormalisedTransaction) : ScoredCandidate :=
  let f := fieldScores text amountToleranceMinor config internal external
  let hard := decide (f.direction = 1 ∧ f.currency = 1)
  let signals := f.independentSignals config.thresholds
  let variance := differsOnlyInDigits (internal.normalisedReference.getD "")
    (external.normalisedReference.getD "") &&
    decide (f.counterparty < config.thresholds.counterpartyTokenSetRatio)
  { internalTxn := internal
    externalTxn := external
    confidence := f.confidence config.weights
    fieldScores := f
    hardConstraintsPassed := hard
    independentSignalCount := signals
    decision := decideMatch (f.confidence config.weights) hard signals config.thresholds variance }

/-! ## What a decision needs -/

/-- Nothing is proposed for a pair that fails a hard constraint, whatever the weights. -/
theorem decideMatch_hard {confidence : Int} {hard variance : Bool} {signals : Nat}
    {t : MatchingThresholds} (h : decideMatch confidence hard signals t variance ≠ .noMatch) :
    hard = true := by
  unfold decideMatch at h
  split at h
  · exact absurd rfl h
  · rename_i hhard
    simpa using hhard

/-- Only the top band is matched without a person, and only when enough independent fields agree
and the references do not differ by digits alone. -/
theorem decideMatch_autoMatch {confidence : Int} {hard variance : Bool} {signals : Nat}
    {t : MatchingThresholds} (h : decideMatch confidence hard signals t variance = .autoMatch) :
    hard = true ∧ t.autoMatchConfidence < (confidence : Rat) / 1000 ∧
      t.minIndependentSignalsForAutoMatch ≤ signals ∧ variance = false := by
  unfold decideMatch at h
  split at h
  · cases h
  · rename_i hhard
    split at h
    · rename_i hauto
      split at h
      · cases h
      · rename_i hsignals
        split at h
        · cases h
        · rename_i hvariance
          exact ⟨by simpa using hhard, hauto, Nat.le_of_not_lt hsignals, by simpa using hvariance⟩
    · split at h <;> cases h

/-- A gate is open when both sides are equal. -/
theorem scoreGate_eq_one {α : Type} [DecidableEq α] {a b : α} : scoreGate a b = 1 ↔ a = b := by
  unfold scoreGate
  split
  · exact ⟨fun _ => ‹_›, fun _ => rfl⟩
  · exact ⟨fun h => absurd h (by norm_num), fun h => absurd h ‹_›⟩

/-- A proposed pair agrees in direction and currency. -/
theorem scoreCandidate_proposed {text : TextSimilarity} {amountToleranceMinor : Int}
    {config : MatchingConfig} {internal external : NormalisedTransaction}
    (h : (scoreCandidate text amountToleranceMinor config internal external).decision ≠ .noMatch) :
    internal.direction = external.direction ∧ internal.currency = external.currency := by
  have hhard := decideMatch_hard h
  rw [decide_eq_true_eq] at hhard
  exact ⟨scoreGate_eq_one.mp hhard.1, scoreGate_eq_one.mp hhard.2⟩

end Recon
