import ReconEngine.Exceptions.Routing

/-!
# Routing and risk

A context is riskier than another of its category when it carries more value, a greater variance, a
larger batch, a greater difference of amount or date, or less confidence. A value that is missing
counts as the least of those that raise a tier, and as the worst of those that an automatic
resolution is granted on.

**The law** (`route_mono`): the riskier context gets no lower tier and no lower severity. Five
predicates decide a tier, one of them the other way round: eligibility falls as the risk rises, and
it stands before the cumulative value in the order of precedence. What makes the law hold is that
tier 1 is the lowest, so a context that is still eligible cannot have been above it before.

**What it does not establish.** Monotony across categories, or across taxonomies: a context that
changes its category changes its rule. Deadlines are not compared.
-/

set_option autoImplicit false

namespace Recon

/-! ## Values that may be missing -/

section

variable {α : Type} [LE α]

/-- `second` is at least `first`, where a missing value is the least. -/
def AtLeast (first second : Option α) : Prop := ∀ a ∈ first, ∃ b ∈ second, a ≤ b

/-- `second` is at least `first`, where a missing value is the greatest. -/
def AtLeastOrMissing (first second : Option α) : Prop := ∀ b ∈ second, ∃ a ∈ first, a ≤ b

/-- `second` is at most `first`, where a missing value is the least. -/
def AtMostOrMissing (first second : Option α) : Prop := ∀ b ∈ second, ∃ a ∈ first, b ≤ a

/-- Above a limit, so is every value that is at least as great. -/
theorem AtLeast.any {first second : Option α} (h : AtLeast first second) {p : α → Bool}
    (hp : ∀ a b, a ≤ b → p a = true → p b = true) (hfirst : first.any p = true) :
    second.any p = true := by
  obtain ⟨a, ha, hpa⟩ := (Option.any_eq_true _ _).mp hfirst
  obtain ⟨b, hb, hab⟩ := h a ha
  exact (Option.any_eq_true _ _).mpr ⟨b, hb, hp a b hab hpa⟩

/-- Within a limit, so is every value that is no greater. -/
theorem AtLeastOrMissing.any {first second : Option α} (h : AtLeastOrMissing first second)
    {p : α → Bool} (hp : ∀ a b, a ≤ b → p b = true → p a = true)
    (hsecond : second.any p = true) : first.any p = true := by
  obtain ⟨b, hb, hpb⟩ := (Option.any_eq_true _ _).mp hsecond
  obtain ⟨a, ha, hab⟩ := h b hb
  exact (Option.any_eq_true _ _).mpr ⟨a, ha, hp a b hab hpb⟩

/-- What holds of the lesser value holds of the greater; of a missing value it never holds. -/
theorem AtMostOrMissing.any {first second : Option α} (h : AtMostOrMissing first second)
    {p : α → Bool} (hp : ∀ a b, b ≤ a → p b = true → p a = true)
    (hsecond : second.any p = true) : first.any p = true := by
  obtain ⟨b, hb, hpb⟩ := (Option.any_eq_true _ _).mp hsecond
  obtain ⟨a, ha, hba⟩ := h b hb
  exact (Option.any_eq_true _ _).mpr ⟨a, ha, hp a b hba hpb⟩

end

/-! ## Contexts by risk -/

/-- The second context is at least as risky as the first. -/
structure Riskier (first second : ExceptionContext) : Prop where
  category : first.category = second.category
  amount : AtLeast first.amountInrMinor second.amountInrMinor
  cumulative : AtLeast first.cumulativeDailyInrMinor second.cumulativeDailyInrMinor
  variance : AtLeast first.fxVariancePercent second.fxVariancePercent
  batch : first.bankBatchExceptionCount ≤ second.bankBatchExceptionCount
  difference : AtLeastOrMissing first.amountDifferenceMinor second.amountDifferenceMinor
  days : AtLeastOrMissing first.daysOffset second.daysOffset
  confidence : AtMostOrMissing first.fuzzyConfidence second.fuzzyConfidence

section

variable {first second : ExceptionContext} {rule : CategoryRule} {tax : TaxonomyConfig}

/-- The riskier context exceeds a limit that the other exceeds. -/
theorem exceedsIndividual_mono (h : Riskier first second)
    (hfirst : exceedsIndividual first tax = true) : exceedsIndividual second tax = true := by
  apply h.amount.any _ hfirst
  intro a b hab ha
  simp only [decide_eq_true_eq] at ha ⊢
  exact lt_of_lt_of_le ha hab

theorem exceedsCumulative_mono (h : Riskier first second)
    (hfirst : exceedsCumulative first tax = true) : exceedsCumulative second tax = true := by
  apply h.cumulative.any _ hfirst
  intro a b hab ha
  simp only [decide_eq_true_eq] at ha ⊢
  exact lt_of_lt_of_le ha hab

theorem tier4Reason_mono (h : Riskier first second) (hfirst : tier4Reason first rule tax = true) :
    tier4Reason second rule tax = true := by
  simp only [tier4Reason, Bool.or_eq_true, Bool.and_eq_true, decide_eq_true_eq] at hfirst ⊢
  obtain (hdefault | ⟨hcategory, hvariance⟩) | hbatch := hfirst
  · exact Or.inl (Or.inl hdefault)
  · refine Or.inl (Or.inr ⟨h.category ▸ hcategory, h.variance.any ?_ hvariance⟩)
    intro a b hab ha
    simp only [decide_eq_true_eq] at ha ⊢
    exact lt_of_lt_of_le ha hab
  · exact Or.inr (lt_of_lt_of_le hbatch h.batch)

/-- What is still eligible was eligible before. -/
theorem autoResolveEligible_anti (h : Riskier first second)
    (hsecond : autoResolveEligible second rule tax = true) :
    autoResolveEligible first rule tax = true := by
  unfold autoResolveEligible at hsecond ⊢
  rw [h.category]
  cases hrule : rule.autoResolvable with
  | always => rfl
  | never => simp [hrule] at hsecond
  | conditional =>
    simp only [hrule] at hsecond ⊢
    cases hcategory : second.category <;> simp only [hcategory] at hsecond ⊢
    case amountMismatch =>
      apply h.difference.any _ hsecond
      intro a b hab hb
      simp only [decide_eq_true_eq] at hb ⊢
      exact hab.trans hb
    case dateMismatch =>
      apply h.days.any _ hsecond
      intro a b hab hb
      simp only [decide_eq_true_eq] at hb ⊢
      exact hab.trans hb
    case referenceTruncated =>
      apply h.confidence.any _ hsecond
      intro a b hba hb
      simp only [decide_eq_true_eq] at hb ⊢
      exact lt_of_lt_of_le hb hba
    all_goals cases hsecond

theorem ExceptionSeverity.order_le_critical (severity : ExceptionSeverity) :
    severity.order ≤ ExceptionSeverity.critical.order := by
  cases severity <;> simp [ExceptionSeverity.order]

theorem severityOf_mono (h : Riskier first second) :
    (severityOf first rule tax).order ≤ (severityOf second rule tax).order := by
  unfold severityOf
  by_cases hfirst : exceedsIndividual first tax = true
  · rw [hfirst, exceedsIndividual_mono h hfirst]
  · simp only [hfirst, Bool.false_and, Bool.false_eq_true, if_false]
    split
    · exact ExceptionSeverity.order_le_critical _
    · exact le_refl _

/-- Without a reason for compliance, nothing is above tier 3. -/
theorem initialTier_le_senior {ctx : ExceptionContext} (eligible : Bool)
    (h : tier4Reason ctx rule tax = false) : (initialTier ctx rule tax eligible).value ≤ 3 := by
  have hdefault : rule.defaultTier.value ≤ 3 := by
    simp only [tier4Reason, Bool.or_eq_false_iff, beq_eq_false_iff_ne] at h
    cases htier : rule.defaultTier with
    | tier1Auto => simp [EscalationTier.value]
    | tier2Analyst => simp [EscalationTier.value]
    | tier3Senior => simp [EscalationTier.value]
    | tier4Compliance => exact absurd htier h.1.1
  unfold initialTier
  rw [if_neg (by simp [h])]
  split_ifs
  · exact le_refl 3
  · exact Nat.le_of_ble_eq_true rfl
  · exact le_refl 3
  · exact hdefault

theorem initialTier_mono (h : Riskier first second) :
    (initialTier first rule tax (autoResolveEligible first rule tax)).value ≤
      (initialTier second rule tax (autoResolveEligible second rule tax)).value := by
  by_cases hcompliance : tier4Reason second rule tax = true
  · rw [show initialTier second rule tax (autoResolveEligible second rule tax) = .tier4Compliance by
      unfold initialTier; rw [if_pos hcompliance]]
    exact (EscalationTier.value_bounds _).2
  have hquiet : tier4Reason first rule tax = false := by
    rw [← Bool.not_eq_true]
    exact fun hfirst => hcompliance (tier4Reason_mono h hfirst)
  have hsenior := initialTier_le_senior (autoResolveEligible first rule tax) hquiet
  by_cases hindividual : exceedsIndividual second tax = true
  · rw [show initialTier second rule tax (autoResolveEligible second rule tax) = .tier3Senior by
      unfold initialTier; rw [if_neg hcompliance, if_pos hindividual]]
    exact hsenior
  have hsmall : exceedsIndividual first tax = false := by
    rw [← Bool.not_eq_true]
    exact fun hfirst => hindividual (exceedsIndividual_mono h hfirst)
  -- an eligible context that is still eligible stays in the lowest tier
  by_cases heligible : autoResolveEligible first rule tax = true
  · rw [show initialTier first rule tax (autoResolveEligible first rule tax) = .tier1Auto by
      unfold initialTier; simp [hquiet, hsmall, heligible]]
    exact (EscalationTier.value_bounds _).1
  have hineligible : ¬ autoResolveEligible second rule tax = true :=
    fun hsecond => heligible (autoResolveEligible_anti h hsecond)
  by_cases hcumulative : exceedsCumulative second tax = true
  · rw [show initialTier second rule tax (autoResolveEligible second rule tax) = .tier3Senior by
      unfold initialTier
      rw [if_neg hcompliance, if_neg hindividual, if_neg hineligible, if_pos hcumulative]]
    exact hsenior
  have hday : ¬ exceedsCumulative first tax = true :=
    fun hfirst => hcumulative (exceedsCumulative_mono h hfirst)
  unfold initialTier
  simp [hquiet, hsmall, heligible, hday, hcompliance, hindividual, hineligible, hcumulative]

end

/-- Routing is monotone in risk. -/
theorem route_mono (tax : TaxonomyConfig) (first second : ExceptionContext)
    (h : Riskier first second) (firstAt secondAt : Instant) :
    (route first tax firstAt).tier.value ≤ (route second tax secondAt).tier.value ∧
      (route first tax firstAt).severity.order ≤ (route second tax secondAt).severity.order := by
  simp only [route, ← h.category]
  exact ⟨initialTier_mono h, severityOf_mono h⟩

/-- An amount mismatch of one unit, and the same in a large batch with its difference unknown. -/
theorem route_mono_amountMismatch :
    (route { category := .amountMismatch, amountDifferenceMinor := some 1 }
        shippedTaxonomy 0).tier.value ≤
      (route { category := .amountMismatch, bankBatchExceptionCount := 51 }
        shippedTaxonomy 0).tier.value ∧
    (route { category := .amountMismatch, amountDifferenceMinor := some 1 }
        shippedTaxonomy 0).severity.order ≤
      (route { category := .amountMismatch, bankBatchExceptionCount := 51 }
        shippedTaxonomy 0).severity.order :=
  route_mono shippedTaxonomy { category := .amountMismatch, amountDifferenceMinor := some 1 }
    { category := .amountMismatch, bankBatchExceptionCount := 51 }
    { category := rfl
      amount := by simp [AtLeast]
      cumulative := by simp [AtLeast]
      variance := by simp [AtLeast]
      batch := by simp
      difference := by simp [AtLeastOrMissing]
      days := by simp [AtLeastOrMissing]
      confidence := by simp [AtMostOrMissing] } 0 0

end Recon
