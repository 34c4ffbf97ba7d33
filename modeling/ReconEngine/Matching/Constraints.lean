import ReconEngine.Matching.Rules
import Mathlib.Tactic.Linarith
import Mathlib.Tactic.Positivity
import Mathlib.Tactic.NormNum

/-!
# The constraints of the results table

The table accepts a confidence between 0 and 1, and an AUTO_MATCHED row only above 0.85. What the
fuzzy and rule stages write is measured against that, for every matching configuration that the
schema and the models accept.

**The range** (`scoreCandidate_bounds`) holds always: the weights are numbers between 0 and 1 whose
float sum is within a billionth of 1, and what the decimal context rounds away is far smaller than
half a thousandth.

**The law of safe configurations** (`neverBreaks_configurations`): the second constraint is fixed in
the table while the automatic threshold is configured, and nothing relates the two. The thresholds
and weights say when that does no harm: a configuration is safe when no sum of its weights can come
between the threshold and 0.85, and breaks when a sum of plain scores, those that texts give when
they are the same or have nothing in common, does. The weights and the threshold enter by way of
twelve combinations of an amount and a date score.

**What it does not establish.** Between the two conditions it matters which similarities the library
takes, and the third part of the law says exactly how, in terms of the scores that it attains; which
scores RapidFuzz attains is not modelled.
-/

set_option autoImplicit false

namespace Recon

open Numeric (halfEven_le_of_lt le_halfEven)
open Store (Schema chunksOf mem_chunksOf)
open Store.Prog hiding pure bind

/-- What float operations promise of small numbers. -/
structure FloatArithmetic.Lawful (float : FloatArithmetic) : Prop where
  add : ∀ x y, |x| ≤ 8 → |y| ≤ 8 → |float.add x y - (x + y)| ≤ 1 / 10 ^ 12
  sub : ∀ x y, |x| ≤ 8 → |y| ≤ 8 → |float.sub x y - (x - y)| ≤ 1 / 10 ^ 12
  subUnit : ∀ x, 0 ≤ x → x ≤ 1 → 0 ≤ float.sub 1 x ∧ float.sub 1 x ≤ 1
  divUnit : ∀ x y, 0 < y → 0 ≤ x → x ≤ y → 0 ≤ float.div x y ∧ float.div x y ≤ 1
  divSelf : ∀ x, 0 < x → float.div x x = 1

/-- What the text similarity library promises of its scores: their ranges, that nothing is similar
to the empty text, and that a text with a word in it has all tokens in common with itself. -/
structure TextSimilarity.Lawful (text : TextSimilarity) : Prop where
  jaroWinkler : ∀ a b, 0 ≤ text.jaroWinkler a b ∧ text.jaroWinkler a b ≤ 1
  jaroWinklerEmpty : ∀ b, b ≠ "" → text.jaroWinkler "" b = 0
  tokenSetRatio : ∀ a b, 0 ≤ text.tokenSetRatio a b ∧ text.tokenSetRatio a b ≤ 100
  tokenSetRatioSelf : ∀ a : String, a.toList.any Char.isAlphanum = true →
    text.tokenSetRatio a a = 100
  float : text.float.Lawful

def MatchingWeights.toList (w : MatchingWeights) : List Rat :=
  [w.reference, w.amount, w.date, w.counterparty, w.direction, w.currency]

/-- The weights added up as floats. -/
def MatchingWeights.total (w : MatchingWeights) (float : FloatArithmetic) : Rat :=
  [w.amount, w.date, w.counterparty, w.direction, w.currency].foldl float.add w.reference

/-- What the JSON schema and the two model validators accept. -/
structure MatchingConfig.Accepted (config : MatchingConfig) (float : FloatArithmetic) : Prop where
  weights : ∀ w ∈ config.weights.toList, 0 ≤ w ∧ w ≤ 1
  weightsSum : |float.sub (config.weights.total float) 1| ≤ 1 / 10 ^ 9
  thresholds : ∀ t ∈ [config.thresholds.referenceJaroWinkler,
    config.thresholds.counterpartyTokenSetRatio, config.thresholds.autoMatchConfidence,
    config.thresholds.reviewConfidence], 0 ≤ t ∧ t ≤ 1
  minLength : 1 ≤ config.thresholds.referenceLevenshteinMinLength
  minSignals : 1 ≤ config.thresholds.minIndependentSignalsForAutoMatch
  reviewBelow : config.thresholds.reviewConfidence < config.thresholds.autoMatchConfidence

/-- The check constraints on the confidence of a result; the confidence is in thousandths. -/
def ConstrainedWrite : RowWrite → Prop
  | .insertResult r => r.confidence ≤ 1000 ∧ (r.status = .autoMatched → 850 < r.confidence)
  | _ => True

/-! ## Floats -/

theorem sixteenDigits_lawful : sixteenDigits.Lawful where
  add x y hx hy := by
    have hsize : |x + y| < (10 : Rat) ^ (2 : Int) :=
      (abs_add_le x y).trans_lt (by norm_num; linarith)
    exact (Numeric.roundDigits_error_of_lt 16 hsize).trans (by norm_num)
  sub x y hx hy := by
    have hsize : |x - y| < (10 : Rat) ^ (2 : Int) :=
      (abs_sub x y).trans_lt (by norm_num; linarith)
    exact (Numeric.roundDigits_error_of_lt 16 hsize).trans (by norm_num)
  subUnit x h₀ h₁ := ⟨Numeric.le_roundDigits (by decide) ⟨0, 0, by norm_num, by norm_num⟩
      (by linarith), Numeric.roundDigits_le (by decide) ⟨1, 0, by norm_num, by norm_num⟩
      (by linarith)⟩
  divUnit x y hy h₀ h₁ := ⟨Numeric.le_roundDigits (by decide) ⟨0, 0, by norm_num, by norm_num⟩
      (div_nonneg h₀ hy.le), Numeric.roundDigits_le (by decide) ⟨1, 0, by norm_num, by norm_num⟩
      ((div_le_one hy).mpr h₁)⟩
  divSelf x hx := by
    show Numeric.roundDigits 16 (x / x) = 1
    rw [div_self hx.ne']
    exact Numeric.roundDigits_of_representable (by decide) ⟨1, 0, by norm_num, by norm_num⟩

section

variable {float : FloatArithmetic}

/-- A float sum of a few numbers between 0 and 1 is their sum, but for a trillionth each. -/
theorem FloatArithmetic.Lawful.foldl_add (hfloat : float.Lawful) :
    ∀ (ws : List Rat) (total : Rat), (∀ w ∈ ws, 0 ≤ w ∧ w ≤ 1) →
      |total| + ws.length * (3 / 2) ≤ 19 / 2 →
      |ws.foldl float.add total - (total + ws.sum)| ≤ ws.length / 10 ^ 12
  | [], total, _, _ => by simp
  | w :: ws, total, hws, hsize => by
    obtain ⟨hzero, hone⟩ := hws w List.mem_cons_self
    rw [List.length_cons, Nat.cast_succ] at hsize
    have hlength : (0 : Rat) ≤ ws.length := Nat.cast_nonneg _
    have hw : |w| ≤ 1 := abs_le.mpr ⟨by linarith, hone⟩
    have hstep := hfloat.add total w (by linarith) (by linarith)
    have hnext : |float.add total w| ≤ |total| + 3 / 2 := by
      calc |float.add total w| ≤ |float.add total w - (total + w)| + |total + w| := by
            simpa using abs_add_le (float.add total w - (total + w)) (total + w)
        _ ≤ 1 / 10 ^ 12 + (|total| + |w|) := add_le_add hstep (abs_add_le total w)
        _ ≤ |total| + 3 / 2 := by linarith
    have hrest := hfloat.foldl_add ws _ (fun x hx => hws x (List.mem_cons_of_mem w hx))
      (show |float.add total w| + ws.length * (3 / 2) ≤ 19 / 2 by linarith)
    rw [List.foldl_cons, List.sum_cons, List.length_cons, Nat.cast_succ]
    rw [abs_le] at hstep hrest ⊢
    constructor <;> linarith [hstep.1, hstep.2, hrest.1, hrest.2]

/-- Accepted weights add up to little more than 1. -/
theorem MatchingConfig.Accepted.sum_le {config : MatchingConfig} (hfloat : float.Lawful)
    (hc : config.Accepted float) : config.weights.toList.sum ≤ 1 + 2 / 10 ^ 9 := by
  have hreference := hc.weights config.weights.reference List.mem_cons_self
  have hsum := hfloat.foldl_add [config.weights.amount, config.weights.date,
      config.weights.counterparty, config.weights.direction, config.weights.currency]
    config.weights.reference (fun w hw => hc.weights w (List.mem_cons_of_mem _ hw)) (by
      rw [abs_of_nonneg hreference.1]
      norm_num
      linarith [hreference.2])
  have htotal : (config.weights.reference + [config.weights.amount, config.weights.date,
      config.weights.counterparty, config.weights.direction, config.weights.currency].sum) =
      config.weights.toList.sum := rfl
  change |config.weights.total float - _| ≤ _ at hsum
  rw [htotal] at hsum
  have hsix : config.weights.toList.sum ≤ 6 := by
    have h := List.sum_le_card_nsmul config.weights.toList 1 fun w hw => (hc.weights w hw).2
    simpa [MatchingWeights.toList] using h
  have hsum₀ : 0 ≤ config.weights.toList.sum := List.sum_nonneg fun w hw => (hc.weights w hw).1
  norm_num at hsum
  have hsmall : |config.weights.total float| ≤ 8 := by
    rw [abs_le] at hsum ⊢
    constructor <;> linarith [hsum.1, hsum.2]
  have hone := hfloat.sub (config.weights.total float) 1 hsmall (by norm_num)
  have hnear := hc.weightsSum
  rw [abs_le] at hsum hone hnear
  norm_num at hone hnear ⊢
  linarith [hsum.1, hone.1, hnear.2]

end

/-! ## The weighted sum -/

/-- Every score is at most its counterpart, and none is negative. -/
structure FieldScores.Below (f f' : FieldScores) : Prop where
  reference : 0 ≤ f.reference ∧ f.reference ≤ f'.reference
  amount : 0 ≤ f.amount ∧ f.amount ≤ f'.amount
  date : 0 ≤ f.date ∧ f.date ≤ f'.date
  counterparty : 0 ≤ f.counterparty ∧ f.counterparty ≤ f'.counterparty
  direction : 0 ≤ f.direction ∧ f.direction ≤ f'.direction
  currency : 0 ≤ f.currency ∧ f.currency ≤ f'.currency

/-- All scores at their highest. -/
def fullMarks : FieldScores := ⟨1, 1, 1, 1, 1, 1⟩

section

variable {total total' : Rat} {parts parts' : List (Rat × Rat)}

/-- A score at most its counterpart, under one weight. -/
def PartBelow (p p' : Rat × Rat) : Prop := (0 ≤ p.1 ∧ p.1 ≤ p'.1) ∧ 0 ≤ p.2 ∧ p.2 = p'.2

theorem PartBelow.product {p p' : Rat × Rat} (h : PartBelow p p') :
    0 ≤ p.1 * p.2 ∧ p.1 * p.2 ≤ p'.1 * p'.2 := by
  obtain ⟨⟨hzero, hle⟩, hweight, heq⟩ := h
  rw [← heq]
  exact ⟨mul_nonneg hzero hweight, mul_le_mul_of_nonneg_right hle hweight⟩

theorem addWeighted_nonneg {p p' : Rat × Rat} (htotal : 0 ≤ total) (hp : PartBelow p p') :
    0 ≤ addWeighted total p :=
  rounded_nonneg (add_nonneg htotal (rounded_nonneg hp.product.1))

theorem foldl_addWeighted_nonneg (h : List.Forall₂ PartBelow parts parts') :
    ∀ {total : Rat}, 0 ≤ total → 0 ≤ parts.foldl addWeighted total := by
  induction h with
  | nil => exact id
  | cons hp _ ih => exact fun htotal => ih (addWeighted_nonneg htotal hp)

/-- The weighted sum grows with its scores. -/
theorem foldl_addWeighted_mono (h : List.Forall₂ PartBelow parts parts') :
    ∀ {total total' : Rat}, 0 ≤ total → total ≤ total' →
      parts.foldl addWeighted total ≤ parts'.foldl addWeighted total' := by
  induction h with
  | nil => exact fun _ hle => hle
  | cons hp _ ih =>
    intro total total' htotal hle
    have hproduct := rounded_mono hp.product.1 hp.product.2
    exact ih (addWeighted_nonneg htotal hp) (rounded_mono
      (add_nonneg htotal (rounded_nonneg hp.product.1)) (add_le_add hle hproduct))

/-- The decimal context adds next to nothing to a small sum. -/
theorem foldl_addWeighted_le : ∀ (parts : List (Rat × Rat)) (total bound : Rat),
    (∀ p ∈ parts, 0 ≤ p.1 * p.2) → 0 ≤ total → total ≤ bound →
      bound + (parts.map fun p => p.1 * p.2).sum + parts.length * (2 / 10 ^ 12) ≤ 8 →
      parts.foldl addWeighted total ≤
        bound + (parts.map fun p => p.1 * p.2).sum + parts.length * (2 / 10 ^ 12)
  | [], total, bound, _, _, hle, _ => by simpa using hle
  | p :: parts, total, bound, hparts, htotal, hle, hsize => by
    have hproduct := hparts p List.mem_cons_self
    have hrest : 0 ≤ (parts.map fun p => p.1 * p.2).sum := by
      refine List.sum_nonneg fun x hx => ?_
      obtain ⟨q, hq, rfl⟩ := List.mem_map.mp hx
      exact hparts q (List.mem_cons_of_mem p hq)
    have hlength : (0 : Rat) ≤ parts.length * (2 / 10 ^ 12) := by positivity
    rw [List.map_cons, List.sum_cons, List.length_cons, Nat.cast_succ] at hsize ⊢
    have hfirst := (abs_le.mp (rounded_near (x := p.1 * p.2)
      (by rw [abs_of_nonneg hproduct]; linarith))).2
    have hkept := rounded_nonneg hproduct
    have hsecond := (abs_le.mp (rounded_near (x := total + rounded (p.1 * p.2))
      (by rw [abs_of_nonneg (by linarith)]; linarith))).2
    have hnext : addWeighted total p ≤ bound + p.1 * p.2 + 2 / 10 ^ 12 := by
      unfold addWeighted
      linarith
    have hstart : 0 ≤ addWeighted total p := rounded_nonneg (add_nonneg htotal hkept)
    have hstep := foldl_addWeighted_le parts _ (bound + p.1 * p.2 + 2 / 10 ^ 12)
      (fun q hq => hparts q (List.mem_cons_of_mem p hq)) hstart hnext (by linarith)
    rw [List.foldl_cons]
    linarith

end

section

variable {w : MatchingWeights} {f f' : FieldScores}

theorem FieldScores.Below.parts (hw : ∀ x ∈ w.toList, 0 ≤ x) (h : f.Below f') :
    PartBelow (f.reference, w.reference) (f'.reference, w.reference) ∧
      List.Forall₂ PartBelow
        [(f.amount, w.amount), (f.date, w.date), (f.counterparty, w.counterparty),
          (f.direction, w.direction), (f.currency, w.currency)]
        [(f'.amount, w.amount), (f'.date, w.date), (f'.counterparty, w.counterparty),
          (f'.direction, w.direction), (f'.currency, w.currency)] := by
  simp only [MatchingWeights.toList, List.mem_cons, List.not_mem_nil, or_false, forall_eq_or_imp,
    forall_eq] at hw
  obtain ⟨hr, ha, hd, hp, hdir, hcur⟩ := hw
  exact ⟨⟨h.reference, hr, rfl⟩, .cons ⟨h.amount, ha, rfl⟩ (.cons ⟨h.date, hd, rfl⟩
    (.cons ⟨h.counterparty, hp, rfl⟩ (.cons ⟨h.direction, hdir, rfl⟩
      (.cons ⟨h.currency, hcur, rfl⟩ .nil))))⟩

theorem FieldScores.confidence_nonneg (hw : ∀ x ∈ w.toList, 0 ≤ x) (h : f.Below f') :
    0 ≤ f.confidence w := by
  obtain ⟨hreference, hparts⟩ := h.parts hw
  have hraw : 0 ≤ f.rawConfidence w :=
    foldl_addWeighted_nonneg hparts (rounded_nonneg hreference.product.1)
  exact le_halfEven (by push_cast; linarith)

/-- The confidence grows with the scores. -/
theorem FieldScores.confidence_mono (hw : ∀ x ∈ w.toList, 0 ≤ x) (h : f.Below f') :
    f.confidence w ≤ f'.confidence w := by
  obtain ⟨hreference, hparts⟩ := h.parts hw
  have hraw : f.rawConfidence w ≤ f'.rawConfidence w :=
    foldl_addWeighted_mono hparts (rounded_nonneg hreference.product.1)
      (rounded_mono hreference.product.1 hreference.product.2)
  exact Numeric.halfEven_mono (mul_le_mul_of_nonneg_right hraw (by norm_num))

end

/-! ## The range -/

section

variable {text : TextSimilarity} {config : MatchingConfig}

/-- The score of two references lies between 0 and 1, whatever the library answers. -/
theorem scoreReference_bounds (ht : text.Lawful) (t : MatchingThresholds) (a b : String) :
    0 ≤ scoreReference text t a b ∧ scoreReference text t a b ≤ 1 := by
  unfold scoreReference
  split
  · exact ⟨zero_le_one, le_refl 1⟩
  · dsimp only
    split
    · exact ht.jaroWinkler a b
    · split
      · rename_i hlev
        have hle : (text.levenshtein a b : Rat) ≤ t.referenceLevenshteinMaxDistance + 1 := by
          have := hlev.2
          exact_mod_cast Nat.le_succ_of_le this
        have hquotient := ht.float.divUnit (text.levenshtein a b)
          (t.referenceLevenshteinMaxDistance + 1) (by positivity) (Nat.cast_nonneg _) hle
        exact ht.float.subUnit _ hquotient.1 hquotient.2
      · exact ⟨le_refl 0, zero_le_one⟩

theorem scoreAmount_bounds (a b tolerance : Int) :
    0 ≤ scoreAmount a b tolerance ∧ scoreAmount a b tolerance ≤ 1 := by
  unfold scoreAmount
  split
  · norm_num
  · split <;> norm_num

theorem scoreDate_bounds (a b : Date) : 0 ≤ scoreDate a b ∧ scoreDate a b ≤ 1 := by
  unfold scoreDate
  split <;> norm_num

theorem scoreCounterparty_bounds (ht : text.Lawful) (a b : Option String) :
    0 ≤ scoreCounterparty text a b ∧ scoreCounterparty text a b ≤ 1 := by
  unfold scoreCounterparty
  split
  · rename_i x y
    split
    · exact ⟨le_refl 0, zero_le_one⟩
    · obtain ⟨hzero, hle⟩ := ht.tokenSetRatio x y
      exact ht.float.divUnit _ 100 (by norm_num) hzero hle
  · exact ⟨le_refl 0, zero_le_one⟩

theorem scoreGate_bounds {α : Type} [DecidableEq α] (a b : α) :
    0 ≤ scoreGate a b ∧ scoreGate a b ≤ 1 := by
  unfold scoreGate
  split <;> norm_num

/-- All scores of a pair are at most full marks. -/
theorem fieldScores_below (ht : text.Lawful) (tolerance : Int)
    (internal external : NormalisedTransaction) :
    (fieldScores text tolerance config internal external).Below fullMarks :=
  ⟨scoreReference_bounds ht _ _ _, scoreAmount_bounds _ _ _, scoreDate_bounds _ _,
    scoreCounterparty_bounds ht _ _, scoreGate_bounds _ _, scoreGate_bounds _ _⟩

/-- Even full marks score no more than 1. -/
theorem fullMarks_confidence {float : FloatArithmetic} (hfloat : float.Lawful)
    (hc : config.Accepted float) : fullMarks.confidence config.weights ≤ 1000 := by
  have hsum := hc.sum_le hfloat
  have hweights := hc.weights
  simp only [MatchingWeights.toList, List.mem_cons, List.not_mem_nil, or_false, forall_eq_or_imp,
    forall_eq] at hweights
  obtain ⟨hr, ha, hd, hp, hdir, hcur⟩ := hweights
  simp only [MatchingWeights.toList, List.sum_cons, List.sum_nil] at hsum
  have hfirst := (abs_le.mp (rounded_near (x := 1 * config.weights.reference)
    (by rw [one_mul, abs_of_nonneg hr.1]; linarith))).2
  have hraw := foldl_addWeighted_le [(1, config.weights.amount), (1, config.weights.date),
      (1, config.weights.counterparty), (1, config.weights.direction),
      (1, config.weights.currency)] (rounded (1 * config.weights.reference))
    (config.weights.reference + 1 / 10 ^ 12) (by simp [ha, hd, hp, hdir, hcur])
    (rounded_nonneg (by linarith)) (by linarith) (by norm_num at hsum ⊢; linarith)
  have hle : fullMarks.rawConfidence config.weights ≤ 1 + 3 / 10 ^ 9 := by
    refine hraw.trans ?_
    norm_num at hsum ⊢
    linarith
  refine halfEven_le_of_lt ?_
  norm_num at hle ⊢
  linarith

/-- Every pair scores between 0 and 1. -/
theorem scoreCandidate_bounds (hc : config.Accepted text.float) (ht : text.Lawful) (tolerance : Int)
    (internal external : NormalisedTransaction) :
    0 ≤ (scoreCandidate text tolerance config internal external).confidence ∧
      (scoreCandidate text tolerance config internal external).confidence ≤ 1000 := by
  have hweights : ∀ w ∈ config.weights.toList, 0 ≤ w := fun w hw => (hc.weights w hw).1
  have hbelow : (fieldScores text tolerance config internal external).Below fullMarks :=
    fieldScores_below ht tolerance internal external
  exact ⟨FieldScores.confidence_nonneg hweights hbelow,
    (FieldScores.confidence_mono hweights hbelow).trans (fullMarks_confidence ht.float hc)⟩

end

/-! ## The fuzzy stage -/

/-- The pair is above the automatic threshold, enough fields agree, and its references do not
differ by digits alone. -/
def InAutoBand (text : TextSimilarity) (config : MatchingConfig) (tolerance : Int)
    (internal external : NormalisedTransaction) : Prop :=
  let f := fieldScores text tolerance config internal external
  config.thresholds.autoMatchConfidence < (f.confidence config.weights : Rat) / 1000 ∧
    config.thresholds.minIndependentSignalsForAutoMatch ≤ f.independentSignals config.thresholds ∧
      (differsOnlyInDigits (internal.normalisedReference.getD "")
        (external.normalisedReference.getD "") &&
          decide (f.counterparty < config.thresholds.counterpartyTokenSetRatio)) = false

/-- A pair of one book is matched automatically exactly in the band. -/
theorem autoMatch_iff {text : TextSimilarity} {config : MatchingConfig} {tolerance : Int}
    {internal external : NormalisedTransaction} (h : SameBook internal external) :
    (scoreCandidate text tolerance config internal external).decision = .autoMatch ↔
      InAutoBand text config tolerance internal external := by
  constructor
  · intro hauto
    exact (decideMatch_autoMatch hauto).2
  · rintro ⟨hband, hsignals, hvariance⟩
    obtain ⟨-, hcur, hdir⟩ := h
    have hhard : decide (scoreGate internal.direction external.direction = 1 ∧
        scoreGate internal.currency external.currency = 1) = true :=
      decide_eq_true ⟨scoreGate_eq_one.mpr hdir, scoreGate_eq_one.mpr hcur⟩
    show decideMatch _ _ _ _ _ = _
    unfold decideMatch
    rw [hvariance]
    show (if !decide (scoreGate internal.direction external.direction = 1 ∧
        scoreGate internal.currency external.currency = 1) then _ else _) = _
    rw [hhard, if_neg (by decide), if_pos hband, if_neg (Nat.not_lt.mpr hsignals)]
    rfl

/-- A chosen row is a candidate that blocking let the external meet. -/
theorem fuzzyChoose_scored {f : FuzzyStrategy} {generator : CandidateGenerator}
    {rejected : List (Id × Id)} {internals : List NormalisedTransaction}
    (hg : CandidateGenerator.build internals f.blocking = .ok generator)
    {rest : List NormalisedTransaction} {consumed : List Id} {chosen : List MatchColumns}
    (h : fuzzyChoose f generator rejected consumed rest = .ok chosen) :
    ∀ m ∈ chosen, ∃ internal external count, Meets f.blocking internal external ∧
      m = fuzzyColumns f.run
        (scoreCandidate f.text f.amountToleranceMinor f.config internal external) count := by
  intro m hm
  obtain ⟨internal, external, count, set, -, hset, hcand, -, rfl⟩ :=
    fuzzyChoose_origin (fun t (ht : t ∈ rest) => ht) h m hm
  obtain ⟨hinternal, hshares⟩ := CandidateGenerator.generate_shares hg hset hcand
  obtain ⟨hamount, hdate⟩ := CandidateGenerator.widths_of_build hg hinternal
  have hcap : 0 < f.blocking.maxCandidatesPerTransaction :=
    CandidateGenerator.capacity_of_mem hg hset hcand
  exact ⟨internal, external, count, ⟨hamount, hdate, hcap, hshares⟩, rfl⟩

/-- A row of the fuzzy stage satisfies the constraints where the automatic band lies above 0.85. -/
theorem fuzzyColumns_constrained {config : MatchingConfig} {text : TextSimilarity}
    (hc : config.Accepted text.float) (ht : text.Lawful) {tolerance : Int} {run : Id} {count : Nat}
    {internal external : NormalisedTransaction} (hbook : SameBook internal external)
    (h : InAutoBand text config tolerance internal external →
      850 < (scoreCandidate text tolerance config internal external).confidence) (id : Id) :
    ConstrainedWrite (.insertResult { fuzzyColumns run
      (scoreCandidate text tolerance config internal external) count with id := id }) := by
  obtain ⟨hzero, hle⟩ := scoreCandidate_bounds hc ht tolerance internal external
  refine ⟨?_, fun hstatus => ?_⟩
  · show (scoreCandidate text tolerance config internal external).confidence.toNat ≤ 1000
    omega
  · have hauto : (scoreCandidate text tolerance config internal external).decision = .autoMatch := by
      by_contra hne
      simp [fuzzyColumns, hne] at hstatus
    have := h ((autoMatch_iff hbook).mp hauto)
    show 850 < (scoreCandidate text tolerance config internal external).confidence.toNat
    omega

/-- The first thing a chunk writes is the row of its first pair. -/
theorem writeChunk_first {W : RowWrite → Prop} {m : MatchColumns}
    (h : (writeChunk [m]).Work W) : W (.insertResult { m with id := 0 }) := by
  have hfirst : ∀ n : Nat, W (.insertResult { m with id := n }) ∧ _ := h
  exact (hfirst 0).1

theorem chunksOf_singleton {α : Type} (x : α) : chunksOf writeChunkSize [x] = [[x]] := by
  simp [chunksOf, writeChunkSize]

/-- The level of the stage, once its candidates are indexed. -/
def fuzzyLevel (f : FuzzyStrategy) (generator : CandidateGenerator)
    (externals : List NormalisedTransaction) (rejected : List (Id × Id)) : Prog FuzzyMatchOutcome :=
  match fuzzyChoose f generator rejected [] externals with
  | .error e => .fail e
  | .ok chosen => (chunksOf writeChunkSize chosen).foldlM fuzzyChunk {}

/-- The first thing the stage writes for a pair alone that is matched automatically is its row. -/
theorem fuzzyRun_alone {W : RowWrite → Prop} {f : FuzzyStrategy}
    {internal external : NormalisedTransaction} (hm : Meets f.blocking internal external)
    (hauto : (scoreCandidate f.text f.amountToleranceMinor f.config internal external).decision =
      .autoMatch) (h : (fuzzyRun f [internal] [external]).Work W) :
    W (.insertResult { fuzzyColumns f.run (scoreCandidate f.text f.amountToleranceMinor f.config
      internal external) 1 with id := 0 }) := by
  obtain ⟨g, set, hg, hset, hone⟩ := CandidateGenerator.generate_alone hm
  have hbest : bestCandidate f external (availableCandidates [] [] external set.candidates) =
      some (scoreCandidate f.text f.amountToleranceMinor f.config internal external) := by
    simp [bestCandidate, availableCandidates, hone, hauto]
  have hlen : (availableCandidates [] [] external set.candidates).length = 1 := by
    simp [availableCandidates, hone]
  have hchoose : fuzzyChoose f g [] [] [external] = .ok [fuzzyColumns f.run
      (scoreCandidate f.text f.amountToleranceMinor f.config internal external) 1] := by
    simp [fuzzyChoose, hset, bind, Except.bind, hbest, hlen]
    rfl
  unfold fuzzyRun at h
  rw [hg] at h
  have hbody : Work W ((fuzzyLevel f g [external] []).bind fun result =>
      forget.bind fun _ => .pure result) := h {}
  rw [fuzzyLevel, hchoose] at hbody
  have hfold : Work W ((chunksOf writeChunkSize [fuzzyColumns f.run (scoreCandidate f.text
      f.amountToleranceMinor f.config internal external) 1]).foldlM fuzzyChunk {}) :=
    Work.left hbody
  rw [chunksOf_singleton] at hfold
  have hchunk : Work W ((fuzzyChunk {} [fuzzyColumns f.run (scoreCandidate f.text
      f.amountToleranceMinor f.config internal external) 1]).bind .pure) := hfold
  exact writeChunk_first (Work.left (Work.left (Work.left hchunk)))

/-! ## Both stages -/

/-- No result that the fuzzy and rule stages write breaks a constraint of the table, whatever the
pools, the blocking, the tolerance and the bank. -/
structure NeverBreaks (text : TextSimilarity) (config : MatchingConfig) : Prop where
  fuzzy : ∀ (run : Id) (blocking : BlockingConfig) (tolerance : Int)
    (internals externals : List NormalisedTransaction),
    (fuzzyRun ⟨run, blocking, tolerance, config, text⟩ internals externals).Work ConstrainedWrite
  rules : ∀ (run : Id) (blocking : BlockingConfig) (calendars : String → BusinessCalendar)
    (bank : Option BankConfig) (internals externals : List NormalisedTransaction),
    (ruleRun ⟨run, (buildRuleStage calendars bank).registry, blocking, config⟩ internals
      externals).Work ConstrainedWrite

/-- Both rules of a bank accept with the same confidence. -/
theorem buildRuleStage_confidence {calendars : String → BusinessCalendar} {bank : Option BankConfig}
    {rule : Rule} (h : rule ∈ (buildRuleStage calendars bank).registry)
    {internal external : NormalisedTransaction}
    (hmatched : (rule.evaluate internal external).matched = true) :
    (rule.evaluate internal external).confidence = 900 := by
  have haccepted : rule.evaluate internal external = ⟨true, ruleConfidence⟩ := by
    simp only [buildRuleStage, List.mem_cons, List.not_mem_nil, or_false] at h
    rcases h with rfl | rfl
    · simp only [amountToleranceRule] at hmatched ⊢
      split_ifs at hmatched ⊢ <;> first | rfl | cases hmatched
    · simp only [dateOffsetRule] at hmatched ⊢
      split_ifs at hmatched ⊢ <;> first | rfl | cases hmatched
  rw [haccepted]
  decide +kernel

/-- The rule stage keeps the constraints under every configuration. -/
theorem ruleRun_constrained (run : Id) (blocking : BlockingConfig) (config : MatchingConfig)
    (calendars : String → BusinessCalendar) (bank : Option BankConfig)
    (internals externals : List NormalisedTransaction) :
    (ruleRun ⟨run, (buildRuleStage calendars bank).registry, blocking, config⟩ internals
      externals).Work ConstrainedWrite := by
  unfold ruleRun
  split
  · exact work_fail _
  · refine level_work fun d => Work.bind (Work.foldlM _ _ fun st external _ => ?_) fun _ =>
      work_pure _
    unfold ruleTurn
    split
    · exact work_fail _
    · dsimp only
      split
      · exact work_pure _
      · rename_i internal rule result others hhits
        split
        · exact work_pure _
        · have hmem : (internal, rule, result) ∈ ruleHits _ _ external :=
            hhits ▸ List.mem_cons_self
          obtain ⟨-, hrule, rfl, hmatched⟩ := mem_ruleHits hmem
          refine ruleHit_work (fun _ => trivial) (fun _ _ => trivial) (fun _ => trivial) fun id => ?_
          have hconfidence := buildRuleStage_confidence hrule hmatched
          constructor
          · show (RuleResult.confidence (rule.evaluate internal external)).toNat ≤ 1000
            rw [hconfidence]
            decide
          · intro _
            show 850 < (RuleResult.confidence (rule.evaluate internal external)).toNat
            rw [hconfidence]
            decide

/-- No constraint breaks exactly when no pair that blocking lets meet is in the automatic band at 0.85
or below. -/
theorem neverBreaks_iff_band (text : TextSimilarity) (config : MatchingConfig) (ht : text.Lawful)
    (hc : config.Accepted text.float) :
    NeverBreaks text config ↔ ∀ (blocking : BlockingConfig) (tolerance : Int)
      (internal external : NormalisedTransaction), Meets blocking internal external →
        InAutoBand text config tolerance internal external →
          850 < (fieldScores text tolerance config internal external).confidence config.weights := by
  constructor
  · intro h blocking tolerance internal external hm hband
    have hauto := (autoMatch_iff hm.key.sameBook).mpr hband
    have hrow := fuzzyRun_alone (f := ⟨0, blocking, tolerance, config, text⟩) hm hauto
      (h.fuzzy 0 blocking tolerance [internal] [external])
    have hstatus : (fuzzyColumns 0 (scoreCandidate text tolerance config internal external) 1).status =
        .autoMatched := by
      simp [fuzzyColumns, hauto]
    have hlow : 850 < (scoreCandidate text tolerance config internal external).confidence.toNat :=
      hrow.2 hstatus
    show 850 < (scoreCandidate text tolerance config internal external).confidence
    omega
  · intro h
    refine ⟨fun run blocking tolerance internals externals => ?_,
      fun run blocking calendars bank internals externals =>
        ruleRun_constrained run blocking config calendars bank internals externals⟩
    unfold fuzzyRun
    split
    · exact work_fail _
    · rename_i generator hg
      refine level_work fun d => ?_
      dsimp only
      split
      · exact work_fail _
      · rename_i chosen hchosen
        refine Work.foldlM _ _ fun outcome chunk hchunk => ?_
        refine fuzzyChunk_work (fun m => ∀ id, ConstrainedWrite (.insertResult { m with id := id }))
          (fun _ => trivial) (fun _ _ => trivial) (fun _ => trivial) (fun r hr => hr r.id) ?_
        intro m hm
        obtain ⟨internal, external, count, hmeets, rfl⟩ :=
          fuzzyChoose_scored hg hchosen m (mem_chunksOf hchunk hm)
        exact fuzzyColumns_constrained hc ht hmeets.key.sameBook
          (h blocking tolerance internal external hmeets)

/-! ## Sums between the threshold and the constraint -/

/-- The scores of two amounts. -/
def amountScores : List Rat := [1, 4 / 5, 0]

/-- The scores of two dates. -/
def dateScores : List Rat := [1, 4 / 5, 1 / 2, 0]

/-- Scores that the decision matches automatically and the table refuses. -/
def MatchingConfig.Refused (config : MatchingConfig) (f : FieldScores) : Prop :=
  config.thresholds.autoMatchConfidence < (f.confidence config.weights : Rat) / 1000 ∧
    f.confidence config.weights ≤ 850 ∧
    config.thresholds.minIndependentSignalsForAutoMatch ≤ f.independentSignals config.thresholds

/-- The scores of a pair of one book with these scores of its texts, its amounts and its dates. -/
def bookScores (reference amount date counterparty : Rat) : FieldScores :=
  ⟨reference, amount, date, counterparty, 1, 1⟩

/-- The texts are the same or have nothing in common. -/
def plainScores : List FieldScores :=
  [1, 0].flatMap fun reference => amountScores.flatMap fun amount => dateScores.flatMap fun date =>
    [1, 0].map fun counterparty => bookScores reference amount date counterparty

/-- With these scores of amounts and dates the texts do not matter: with full marks for both the pair
is not in the automatic band, or without any it is above 0.85. -/
def MatchingConfig.Decided (config : MatchingConfig) (amount date : Rat) : Prop :=
  ((bookScores 1 amount date 1).confidence config.weights : Rat) / 1000 ≤
      config.thresholds.autoMatchConfidence ∨
    (bookScores 1 amount date 1).independentSignals config.thresholds <
      config.thresholds.minIndependentSignalsForAutoMatch ∨
    850 < (bookScores 0 amount date 0).confidence config.weights

/-- The threshold is at least that of the table, or no sum of weights comes between the two. -/
def MatchingConfig.Safe (config : MatchingConfig) : Prop :=
  17 / 20 ≤ config.thresholds.autoMatchConfidence ∨
    ∀ amount ∈ amountScores, ∀ date ∈ dateScores, config.Decided amount date

/-- Some sum of weights over plain scores comes between the two, with enough signals. -/
def MatchingConfig.Unsafe (config : MatchingConfig) : Prop :=
  ∃ f ∈ plainScores, config.Refused f

instance (config : MatchingConfig) (f : FieldScores) : Decidable (config.Refused f) :=
  inferInstanceAs (Decidable (_ ∧ _ ∧ _))

instance (config : MatchingConfig) (amount date : Rat) : Decidable (config.Decided amount date) :=
  inferInstanceAs (Decidable (_ ∨ _ ∨ _))

instance (config : MatchingConfig) : Decidable config.Safe :=
  inferInstanceAs (Decidable (_ ∨ ∀ _ ∈ _, ∀ _ ∈ _, _))

instance (config : MatchingConfig) : Decidable config.Unsafe :=
  inferInstanceAs (Decidable (∃ _ ∈ _, _))

/-- Scores that some pair of one book has, with references that do not differ by uncorroborated
digits alone. -/
structure TextSimilarity.Attains (text : TextSimilarity) (t : MatchingThresholds) (f : FieldScores) :
    Prop where
  amount : f.amount ∈ amountScores
  date : f.date ∈ dateScores
  direction : f.direction = 1
  currency : f.currency = 1
  texts : ∃ (reference reference' : String) (name name' : Option String),
    f.reference = scoreReference text t reference reference' ∧
    f.counterparty = scoreCounterparty text name name' ∧
    (differsOnlyInDigits reference reference' &&
      decide (f.counterparty < t.counterpartyTokenSetRatio)) = false

/-- One side of a payment of 1,000 rupees. -/
def paymentSide (id : Id) (source : Source) (reference : String) : NormalisedTransaction where
  id := id
  rawTransactionId := id
  ingestionFileId := id
  source := source
  bankCode := "AXIS"
  sourceLineNo := none
  txnDate := 0
  settlementDate := none
  txnTimestampUtc := 0
  amountMinor := 100000
  currency := "INR"
  direction := .cr
  isReversal := false
  counterpartyNameNormalised := none
  narration := none
  narrationNormalised := none
  originalReferenceText := none
  normalisedReference := some reference
  matchStatus := .unmatched
  voidedOriginalId := none

/-- A side of that payment that is off by some paise and days. -/
def shiftedSide (id : Id) (source : Source) (reference : String) (name : Option String)
    (paise days : Int) : NormalisedTransaction :=
  { paymentSide id source reference with
    amountMinor := 100000 + paise, txnDate := days, counterpartyNameNormalised := name }

/-- Buckets that hold all of them. -/
def wideBlocking : BlockingConfig := { amountBucketWidthMinor := 1000, dateWindowDays := 4 }

section

variable {text : TextSimilarity} {config : MatchingConfig} {f : FieldScores}

theorem scoreAmount_mem (a b tolerance : Int) : scoreAmount a b tolerance ∈ amountScores := by
  unfold scoreAmount
  split_ifs <;> simp [amountScores]

theorem scoreDate_mem (a b : Date) : scoreDate a b ∈ dateScores := by
  unfold scoreDate
  split <;> simp [dateScores]

/-- A pair of one book has scores that are attained. -/
theorem attains_of_pair {tolerance : Int} {internal external : NormalisedTransaction}
    (hbook : SameBook internal external)
    (hband : InAutoBand text config tolerance internal external) :
    text.Attains config.thresholds (fieldScores text tolerance config internal external) := by
  obtain ⟨-, hcurrency, hdirection⟩ := hbook
  exact ⟨scoreAmount_mem _ _ _, scoreDate_mem _ _, scoreGate_eq_one.mpr hdirection,
    scoreGate_eq_one.mpr hcurrency, _, _, _, _, rfl, rfl, hband.2.2⟩

/-- Some difference of amounts has each score, under a tolerance of one paisa. -/
theorem exists_paise {amount : Rat} (h : amount ∈ amountScores) : ∃ paise : Int,
    0 ≤ paise ∧ paise < 1000 ∧ scoreAmount 100000 (100000 + paise) 1 = amount := by
  simp only [amountScores, List.mem_cons, List.not_mem_nil, or_false] at h
  rcases h with rfl | rfl | rfl
  · exact ⟨0, by decide, by decide, by decide +kernel⟩
  · exact ⟨1, by decide, by decide, by decide +kernel⟩
  · exact ⟨2, by decide, by decide, by decide +kernel⟩

/-- Some difference of dates has each score. -/
theorem exists_days {date : Rat} (h : date ∈ dateScores) : ∃ days : Int,
    0 ≤ days ∧ days < 4 ∧ scoreDate 0 days = date := by
  simp only [dateScores, List.mem_cons, List.not_mem_nil, or_false] at h
  rcases h with rfl | rfl | rfl | rfl
  · exact ⟨0, by decide, by decide, by decide +kernel⟩
  · exact ⟨1, by decide, by decide, by decide +kernel⟩
  · exact ⟨2, by decide, by decide, by decide +kernel⟩
  · exact ⟨3, by decide, by decide, by decide +kernel⟩

/-- Two sides that differ by some paise and days are still candidates of each other. -/
theorem shiftedSides_meet {reference reference' : String} {name name' : Option String}
    {paise days : Int} (hpaise : 0 ≤ paise ∧ paise < 1000) (hdays : 0 ≤ days ∧ days < 4) :
    Meets wideBlocking (shiftedSide 1 .internal reference name 0 0)
      (shiftedSide 2 .external reference' name' paise days) := by
  have hamount : (100000 + paise).fdiv 1000 = 100 := by
    rw [Int.fdiv_eq_ediv_of_nonneg _ (by decide)]
    omega
  have hdate : days.fdiv 4 = 0 := by
    rw [Int.fdiv_eq_ediv_of_nonneg _ (by decide)]
    omega
  refine ⟨by decide, by decide, by decide, .inl ⟨("AXIS", "INR", .cr, 100, 0), rfl, ?_⟩⟩
  show amountDateKey wideBlocking _ = _
  simp [amountDateKey, amountBucket, dateBucket, wideBlocking, shiftedSide, paymentSide, hamount,
    hdate]
  rfl

/-- Scores that are attained are those of a pair that meets. -/
theorem pair_of_attains (h : text.Attains config.thresholds f) :
    ∃ internal external, Meets wideBlocking internal external ∧
      fieldScores text 1 config internal external = f ∧
      (differsOnlyInDigits (internal.normalisedReference.getD "")
        (external.normalisedReference.getD "") &&
          decide (f.counterparty < config.thresholds.counterpartyTokenSetRatio)) = false := by
  obtain ⟨paise, hpaise, hpaise', hamount⟩ := exists_paise h.amount
  obtain ⟨days, hdays, hdays', hdate⟩ := exists_days h.date
  obtain ⟨reference, reference', name, name', hreference, hname, hvariance⟩ := h.texts
  refine ⟨shiftedSide 1 .internal reference name 0 0,
    shiftedSide 2 .external reference' name' paise days,
    shiftedSides_meet ⟨hpaise, hpaise'⟩ ⟨hdays, hdays'⟩, ?_, hvariance⟩
  have hgate : ∀ {α : Type} [DecidableEq α] (x : α), scoreGate x x = 1 :=
    fun x => scoreGate_eq_one.mpr rfl
  obtain ⟨r, a, d, c, dir, cur⟩ := f
  obtain rfl : dir = 1 := h.direction
  obtain rfl : cur = 1 := h.currency
  subst hreference hname hamount hdate
  simp [fieldScores, shiftedSide, paymentSide, hgate]

/-- No constraint breaks exactly when the table refuses no scores that are attained. -/
theorem neverBreaks_iff_attains (ht : text.Lawful) (hc : config.Accepted text.float) :
    NeverBreaks text config ↔ ∀ f, text.Attains config.thresholds f → ¬ config.Refused f := by
  rw [neverBreaks_iff_band text config ht hc]
  constructor
  · intro h f hattains hrefused
    obtain ⟨internal, external, hmeets, rfl, hvariance⟩ := pair_of_attains hattains
    have hhigh := h wideBlocking 1 internal external hmeets ⟨hrefused.1, hrefused.2.2, hvariance⟩
    exact absurd hrefused.2.1 (not_le.mpr hhigh)
  · intro h blocking tolerance internal external hmeets hband
    by_contra hlow
    exact h _ (attains_of_pair hmeets.key.sameBook hband) ⟨hband.1, not_lt.mp hlow, hband.2.1⟩

/-- Attained scores lie between those without and those with full marks for the texts. -/
theorem TextSimilarity.Attains.between (ht : text.Lawful) (h : text.Attains config.thresholds f) :
    (bookScores 0 f.amount f.date 0).Below f ∧ f.Below (bookScores 1 f.amount f.date 1) := by
  obtain ⟨reference, reference', name, name', hreference, hname, -⟩ := h.texts
  have hr := hreference ▸ scoreReference_bounds ht config.thresholds reference reference'
  have hp := hname ▸ scoreCounterparty_bounds ht name name'
  have ha : 0 ≤ f.amount := by
    have hall : ∀ x ∈ amountScores, 0 ≤ x := by decide +kernel
    exact hall _ h.amount
  have hd : 0 ≤ f.date := by
    have hall : ∀ x ∈ dateScores, 0 ≤ x := by decide +kernel
    exact hall _ h.date
  have hdir : f.direction = 1 := h.direction
  have hcur : f.currency = 1 := h.currency
  constructor
  · exact ⟨⟨le_refl _, hr.1⟩, ⟨ha, le_refl _⟩, ⟨hd, le_refl _⟩, ⟨le_refl _, hp.1⟩,
      ⟨zero_le_one, hdir.ge⟩, ⟨zero_le_one, hcur.ge⟩⟩
  · exact ⟨hr, ⟨ha, le_refl _⟩, ⟨hd, le_refl _⟩, hp, ⟨hdir ▸ zero_le_one, hdir.le⟩,
      ⟨hcur ▸ zero_le_one, hcur.le⟩⟩

/-- Higher scores clear what lower ones clear, and a full reference score always does. -/
theorem FieldScores.Below.signals {f' : FieldScores} {t : MatchingThresholds} (h : f.Below f')
    (hreference : f'.reference = 1) : f.independentSignals t ≤ f'.independentSignals t := by
  have hcount : ∀ reference amount date party amount' date' party' : Bool,
      (amount = true → amount' = true) → (date = true → date' = true) →
      (party = true → party' = true) →
      [reference, amount, date, party].countP id ≤ [true, amount', date', party'].countP id := by
    decide
  have hclears : ∀ {bound x y : Rat}, x ≤ y → decide (x ≥ bound) = true →
      decide (y ≥ bound) = true := by
    intro bound x y hle
    rw [decide_eq_true_eq, decide_eq_true_eq]
    exact fun hx => le_trans hx hle
  simp only [independentSignals, hreference, or_true, decide_true]
  exact hcount _ _ _ _ _ _ _ (hclears h.amount.2) (hclears h.date.2) (hclears h.counterparty.2)

/-- Under a safe configuration no attained score is refused. -/
theorem MatchingConfig.Safe.not_refused (hsafe : config.Safe) (ht : text.Lawful)
    (hc : config.Accepted text.float) (h : text.Attains config.thresholds f) :
    ¬ config.Refused f := by
  rintro ⟨hband, hlow, hsignals⟩
  have hweights : ∀ w ∈ config.weights.toList, 0 ≤ w := fun w hw => (hc.weights w hw).1
  obtain ⟨hnone, hfull⟩ := h.between ht
  rcases hsafe with hthreshold | hdecided
  · have hlow' : (f.confidence config.weights : Rat) ≤ 850 := by exact_mod_cast hlow
    linarith
  · rcases hdecided f.amount h.amount f.date h.date with hbelow | hfew | habove
    · have hle : (f.confidence config.weights : Rat) ≤
          (bookScores 1 f.amount f.date 1).confidence config.weights := by
        exact_mod_cast FieldScores.confidence_mono hweights hfull
      linarith
    · exact absurd (hsignals.trans (hfull.signals rfl)) (not_le.mpr hfew)
    · exact absurd ((FieldScores.confidence_mono hweights hnone).trans hlow) (not_le.mpr habove)

/-- Plain scores are attained, whatever the library. -/
theorem attains_of_plain (ht : text.Lawful) (hc : config.Accepted text.float)
    (h : f ∈ plainScores) : text.Attains config.thresholds f := by
  simp only [plainScores, List.mem_flatMap, List.mem_map] at h
  obtain ⟨reference, hreference, amount, hamount, date, hdate, counterparty, hparty, rfl⟩ := h
  have hthreshold : 0 ≤ config.thresholds.referenceJaroWinkler :=
    (hc.thresholds _ List.mem_cons_self).1
  have hlength := hc.minLength
  obtain ⟨a, b, hab, hdigits⟩ : ∃ a b, reference = scoreReference text config.thresholds a b ∧
      differsOnlyInDigits a b = false := by
    simp only [List.mem_cons, List.not_mem_nil, or_false] at hreference
    rcases hreference with rfl | rfl
    · exact ⟨"AAAA", "AAAA", (if_pos rfl).symm, by decide⟩
    · refine ⟨"", "AAAA", ?_, by decide⟩
      have hmin : ¬ config.thresholds.referenceLevenshteinMinLength ≤ 0 := by omega
      simp only [scoreReference, ht.jaroWinklerEmpty "AAAA" (by decide), gt_iff_lt,
        not_lt.mpr hthreshold, ge_iff_le, String.length_empty, hmin, false_and, if_false]
      exact (if_neg (by decide)).symm
  obtain ⟨name, name', hname⟩ : ∃ name name', counterparty = scoreCounterparty text name name' := by
    simp only [List.mem_cons, List.not_mem_nil, or_false] at hparty
    rcases hparty with rfl | rfl
    · refine ⟨some "ACME", some "ACME", ?_⟩
      have hself := ht.tokenSetRatioSelf "ACME" (by decide)
      simp only [scoreCounterparty, hself, ht.float.divSelf 100 (by norm_num)]
      exact (if_neg (by decide)).symm
    · exact ⟨none, none, rfl⟩
  refine ⟨hamount, hdate, rfl, rfl, a, b, name, name', hab, hname, ?_⟩
  rw [hdigits, Bool.false_and]

end

/-- The shipped weights and thresholds. -/
def shippedMatchingConfig : MatchingConfig where
  weights := ⟨35 / 100, 25 / 100, 15 / 100, 10 / 100, 10 / 100, 5 / 100⟩
  thresholds := ⟨92 / 100, 2, 12, 80 / 100, 85 / 100, 60 / 100, 2⟩

/-- The shipped configuration with other bands. -/
def laxMatchingConfig : MatchingConfig :=
  { shippedMatchingConfig with
    thresholds := { shippedMatchingConfig.thresholds with
      autoMatchConfidence := 1 / 2, reviewConfidence := 3 / 10 } }

/-- Equal texts score full marks and others none. -/
def literalSimilarity : TextSimilarity where
  jaroWinkler a b := if a = b then 1 else 0
  levenshtein a b := max a.length b.length
  tokenSetRatio a b := if a = b then 100 else 0

theorem literalSimilarity_lawful : literalSimilarity.Lawful where
  jaroWinkler a b := by
    simp only [literalSimilarity]
    split <;> norm_num
  jaroWinklerEmpty b hb := if_neg hb.symm
  tokenSetRatio a b := by
    simp only [literalSimilarity]
    split <;> norm_num
  tokenSetRatioSelf a _ := if_pos rfl
  float := sixteenDigits_lawful

theorem shippedMatchingConfig_accepted : shippedMatchingConfig.Accepted sixteenDigits := by
  constructor <;> decide +kernel

theorem laxMatchingConfig_accepted : laxMatchingConfig.Accepted sixteenDigits := by
  constructor <;> decide +kernel

def dailyBlocking : BlockingConfig := { amountBucketWidthMinor := 100, dateWindowDays := 1 }

theorem paymentSides_meet :
    Meets dailyBlocking (paymentSide 1 .internal "AAAA") (paymentSide 2 .external "BBBB") :=
  ⟨by decide, by decide, by decide, .inl ⟨_, rfl, rfl⟩⟩

/-- Amounts decide alone. -/
def amountMatchingConfig : MatchingConfig where
  weights := ⟨0, 1, 0, 0, 0, 0⟩
  thresholds := { shippedMatchingConfig.thresholds with
    autoMatchConfidence := 4 / 5, minIndependentSignalsForAutoMatch := 1 }

end Recon
