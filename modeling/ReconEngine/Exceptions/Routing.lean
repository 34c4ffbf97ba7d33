import ReconEngine.Model.Tables
import Mathlib.Data.Rat.Floor

/-!
# Taxonomy and routing

Each category of exception has a rule (`CategoryRule`), and the taxonomy lists every category. The
routing of a new exception is a pure decision on its context: a severity, the tier that starts on
it, and the deadline. Percentages and confidences are exact rationals, instants are microseconds,
and the texts of the decision are left out.

**The law** (`route_auto_iff_default`): where a category does not start in tier 1, tier 1 goes to no
context but one that is eligible for automatic resolution, within the senior limit and not called
for by compliance; where it starts there, the law names the contexts exactly.

**What it does not establish.** That a shipped file keeps starting tiers above 1: a taxonomy that
passes every validator may start a category in tier 1, and `automaticTaxonomy_route` is one.
-/

set_option autoImplicit false

namespace Recon

inductive AutoResolvable where
  | always
  | never
  | conditional
deriving DecidableEq, Repr

inductive EscalationTier where
  | tier1Auto
  | tier2Analyst
  | tier3Senior
  | tier4Compliance
deriving DecidableEq, Repr

def EscalationTier.value : EscalationTier → Nat
  | .tier1Auto => 1
  | .tier2Analyst => 2
  | .tier3Senior => 3
  | .tier4Compliance => 4

structure CategoryRule where
  category : ExceptionCategory
  autoResolvable : AutoResolvable
  slaMinutes : Nat
  baseSeverity : ExceptionSeverity
  defaultTier : EscalationTier
deriving DecidableEq, Repr

structure ValueThresholds where
  criticalIndividualInrMinor : Int
  criticalCumulativeDailyInrMinor : Int
deriving DecidableEq, Repr

structure AutoResolveThresholds where
  amountMismatchMaxDifferenceMinor : Int
  dateMismatchMaxDays : Int
  referenceTruncatedMinConfidence : Rat
deriving DecidableEq, Repr

structure EscalationThresholds where
  fxVarianceTier4Percent : Rat
  systemicExceptionCount : Nat
deriving DecidableEq, Repr

/-- What the classifier looks for in a narration or a reference. The keyword lists are compiled to
one pattern each; a pattern is known by what it finds. -/
structure DetectionConfig where
  regulatoryHold : String → Bool
  reversal : String → Bool
  timezoneOffsetMaxGapHours : Int := 24
  truncatedReferenceLength : Nat := 16

/-- The taxonomy, with a rule for every category. -/
structure TaxonomyConfig where
  valueThresholds : ValueThresholds
  autoResolve : AutoResolveThresholds
  escalation : EscalationThresholds
  detection : DetectionConfig
  categories : List CategoryRule
  covers : ∀ category, (categories.find? (·.category = category)).isSome = true

def TaxonomyConfig.ruleFor (t : TaxonomyConfig) (category : ExceptionCategory) : CategoryRule :=
  (t.categories.find? (·.category = category)).get (t.covers category)

structure ExceptionContext where
  category : ExceptionCategory
  amountInrMinor : Option Int := none
  cumulativeDailyInrMinor : Option Int := none
  amountDifferenceMinor : Option Int := none
  daysOffset : Option Int := none
  fuzzyConfidence : Option Rat := none
  fxVariancePercent : Option Rat := none
  bankBatchExceptionCount : Nat := 0
deriving DecidableEq, Repr

structure RoutingDecision where
  severity : ExceptionSeverity
  tier : EscalationTier
  autoResolveEligible : Bool
  slaMinutes : Nat
  slaDeadline : Instant
deriving DecidableEq, Repr

def ExceptionSeverity.order : ExceptionSeverity → Nat
  | .low => 0
  | .medium => 1
  | .high => 2
  | .critical => 3

def minute : Int := 60 * 1000000

section

variable (ctx : ExceptionContext) (rule : CategoryRule) (tax : TaxonomyConfig)

/-- `_auto_resolve_eligible`. -/
def autoResolveEligible : Bool :=
  match rule.autoResolvable with
  | .always => true
  | .never => false
  | .conditional =>
    match ctx.category with
    | .amountMismatch =>
      ctx.amountDifferenceMinor.any (· ≤ tax.autoResolve.amountMismatchMaxDifferenceMinor)
    | .dateMismatch => ctx.daysOffset.any (· ≤ tax.autoResolve.dateMismatchMaxDays)
    | .referenceTruncated =>
      ctx.fuzzyConfidence.any (tax.autoResolve.referenceTruncatedMinConfidence < ·)
    | _ => false

def exceedsIndividual : Bool :=
  ctx.amountInrMinor.any (tax.valueThresholds.criticalIndividualInrMinor < ·)

def exceedsCumulative : Bool :=
  ctx.cumulativeDailyInrMinor.any (tax.valueThresholds.criticalCumulativeDailyInrMinor < ·)

/-- `_severity`: the category's own, or CRITICAL above the individual threshold. -/
def severityOf : ExceptionSeverity :=
  if exceedsIndividual ctx tax && rule.baseSeverity.order < ExceptionSeverity.critical.order then
    .critical
  else rule.baseSeverity

/-- Whether `_tier4_reason` gives a reason. -/
def tier4Reason : Bool :=
  rule.defaultTier == .tier4Compliance ||
    (ctx.category == .fxVariance &&
      ctx.fxVariancePercent.any (tax.escalation.fxVarianceTier4Percent < ·)) ||
    tax.escalation.systemicExceptionCount < ctx.bankBatchExceptionCount

/-- `_tier`. -/
def initialTier (eligible : Bool) : EscalationTier :=
  if tier4Reason ctx rule tax then .tier4Compliance
  else if exceedsIndividual ctx tax then .tier3Senior
  else if eligible then .tier1Auto
  else if exceedsCumulative ctx tax then .tier3Senior
  else rule.defaultTier

end

def route (ctx : ExceptionContext) (tax : TaxonomyConfig) (createdAt : Instant) :
    RoutingDecision :=
  let rule := tax.ruleFor ctx.category
  let eligible := autoResolveEligible ctx rule tax
  { severity := severityOf ctx rule tax
    tier := initialTier ctx rule tax eligible
    autoResolveEligible := eligible
    slaMinutes := rule.slaMinutes
    slaDeadline := createdAt + rule.slaMinutes * minute }

/-- One tier up, at most 4, once the deadline has passed. -/
def tierAfterSlaCheck (current : Nat) (slaDeadline now : Instant) : Nat :=
  if now ≤ slaDeadline then current else min (current + 1) 4

/-! ## Queues -/

/-- `QUEUE_BY_TIER`: tier 1 is automatic and has no queue. -/
def queueByTier : List (Nat × String) :=
  [(2, "queue:analyst"), (3, "queue:senior-ops"), (4, "queue:compliance")]

def queueForTier (tier : Nat) : Option String := queueByTier.lookup tier

/-- Nobody or a queue, as against a named person. -/
def isQueue (assignee : Option String) : Bool := assignee.all fun name => "queue:".isPrefixOf name

/-! ## What routing guarantees -/

theorem EscalationTier.value_bounds (tier : EscalationTier) : 1 ≤ tier.value ∧ tier.value ≤ 4 := by
  cases tier <;> decide

/-- The tier after a check of the deadline is no lower, and lies between 1 and 4. -/
theorem tierAfterSlaCheck_bounds {current : Nat} (h : 1 ≤ current ∧ current ≤ 4)
    (slaDeadline now : Instant) :
    current ≤ tierAfterSlaCheck current slaDeadline now ∧
      1 ≤ tierAfterSlaCheck current slaDeadline now ∧
      tierAfterSlaCheck current slaDeadline now ≤ 4 := by
  unfold tierAfterSlaCheck
  split
  · exact ⟨le_refl _, h⟩
  · omega

/-! ## What tier 1 stands for

An exception in tier 1 is acted on without a person, so the tier has to say four things about it.
They are stated here on the values of the context, not by the predicates that `_tier` calls. -/

section

variable (ctx : ExceptionContext) (rule : CategoryRule) (tax : TaxonomyConfig)

/-- The value that a conditional category looks at is there and within its limit. -/
def ContextWithin : Prop :=
  (ctx.category = .amountMismatch ∧ ∃ difference, ctx.amountDifferenceMinor = some difference ∧
      difference ≤ tax.autoResolve.amountMismatchMaxDifferenceMinor) ∨
    (ctx.category = .dateMismatch ∧ ∃ days, ctx.daysOffset = some days ∧
      days ≤ tax.autoResolve.dateMismatchMaxDays) ∨
    (ctx.category = .referenceTruncated ∧ ∃ confidence, ctx.fuzzyConfidence = some confidence ∧
      tax.autoResolve.referenceTruncatedMinConfidence < confidence)

/-- Eligible for auto-resolution under the rule, with the context that the rule asks for. -/
def EligibleInContext : Prop :=
  rule.autoResolvable = .always ∨ (rule.autoResolvable = .conditional ∧ ContextWithin ctx tax)

/-- The individual value is not above the threshold of senior operations. -/
def ValueWithinSenior : Prop :=
  ∀ amount, ctx.amountInrMinor = some amount →
    amount ≤ tax.valueThresholds.criticalIndividualInrMinor

/-- The cumulative value of the day is not above its threshold. -/
def ValueWithinDay : Prop :=
  ∀ cumulative, ctx.cumulativeDailyInrMinor = some cumulative →
    cumulative ≤ tax.valueThresholds.criticalCumulativeDailyInrMinor

/-- Compliance is called: by the category, by the variance of an FX rate or by the size of the
batch. -/
def ComplianceCalled : Prop :=
  rule.defaultTier = .tier4Compliance ∨
    (ctx.category = .fxVariance ∧ ∃ variance, ctx.fxVariancePercent = some variance ∧
      tax.escalation.fxVarianceTier4Percent < variance) ∨
    tax.escalation.systemicExceptionCount < ctx.bankBatchExceptionCount

end

section

variable {ctx : ExceptionContext} {rule : CategoryRule} {tax : TaxonomyConfig}

/-- What the code computes is eligibility in the context. -/
theorem autoResolveEligible_iff :
    autoResolveEligible ctx rule tax = true ↔ EligibleInContext ctx rule tax := by
  unfold autoResolveEligible EligibleInContext ContextWithin
  cases rule.autoResolvable with
  | always => simp
  | never => simp
  | conditional => cases ctx.category <;> simp [Option.any_eq_true]

/-- A value that does not exceed is within the senior limit. -/
theorem exceedsIndividual_iff : exceedsIndividual ctx tax = false ↔ ValueWithinSenior ctx tax := by
  unfold exceedsIndividual ValueWithinSenior
  cases ctx.amountInrMinor <;> simp

theorem exceedsCumulative_iff : exceedsCumulative ctx tax = false ↔ ValueWithinDay ctx tax := by
  unfold exceedsCumulative ValueWithinDay
  cases ctx.cumulativeDailyInrMinor <;> simp

/-- Compliance is called for the reasons that the taxonomy names. -/
theorem tier4Reason_iff : tier4Reason ctx rule tax = true ↔ ComplianceCalled ctx rule tax := by
  unfold tier4Reason ComplianceCalled
  simp [Option.any_eq_true, or_assoc]

/-- The two ways into tier 1: what is eligible, and what nothing else takes in a category that
starts there. -/
theorem initialTier_eq_auto_iff :
    initialTier ctx rule tax (autoResolveEligible ctx rule tax) = .tier1Auto ↔
      ¬ ComplianceCalled ctx rule tax ∧ ValueWithinSenior ctx tax ∧
        (EligibleInContext ctx rule tax ∨
          (ValueWithinDay ctx tax ∧ rule.defaultTier = .tier1Auto)) := by
  rw [← tier4Reason_iff, ← exceedsIndividual_iff, ← exceedsCumulative_iff,
    ← autoResolveEligible_iff]
  unfold initialTier
  cases tier4Reason ctx rule tax <;> cases exceedsIndividual ctx tax <;>
    cases autoResolveEligible ctx rule tax <;> cases exceedsCumulative ctx tax <;> simp

end

/-- Tier 1 says that the exception is eligible, within the senior threshold and nothing for
compliance, exactly when the default tier of its category is not what puts it there. -/
theorem route_auto_iff_default (ctx : ExceptionContext) (tax : TaxonomyConfig)
    (createdAt : Instant) :
    ((route ctx tax createdAt).tier = .tier1Auto →
        EligibleInContext ctx (tax.ruleFor ctx.category) tax ∧ ValueWithinSenior ctx tax ∧
          ¬ ComplianceCalled ctx (tax.ruleFor ctx.category) tax) ↔
      ((tax.ruleFor ctx.category).defaultTier = .tier1Auto →
        EligibleInContext ctx (tax.ruleFor ctx.category) tax ∨ ¬ ValueWithinSenior ctx tax ∨
          ComplianceCalled ctx (tax.ruleFor ctx.category) tax ∨ ¬ ValueWithinDay ctx tax) := by
  simp only [route]
  rw [initialTier_eq_auto_iff]
  constructor
  · intro h hdefault
    by_contra hnone
    push Not at hnone
    obtain ⟨hineligible, hsenior, hquiet, hday⟩ := hnone
    exact hineligible (h ⟨hquiet, hsenior, Or.inr ⟨hday, hdefault⟩⟩).1
  · intro h hauto
    obtain ⟨hquiet, hsenior, heligible | ⟨hday, hdefault⟩⟩ := hauto
    · exact ⟨heligible, hsenior, hquiet⟩
    · obtain heligible | hno | hcalled | hno := h hdefault
      · exact ⟨heligible, hsenior, hquiet⟩
      · exact absurd hsenior hno
      · exact absurd hcalled hquiet
      · exact absurd hday hno

/-! ## The shipped taxonomy -/

/-- The shipped rules and limits, with no keywords to look for. -/
def shippedTaxonomy : TaxonomyConfig where
  valueThresholds := ⟨100000000, 1000000000⟩
  autoResolve := ⟨1, 1, 85 / 100⟩
  escalation := ⟨3, 50⟩
  detection := { regulatoryHold := fun _ => false, reversal := fun _ => false }
  categories :=
    [ ⟨.missingInternal, .never, 240, .high, .tier2Analyst⟩,
      ⟨.missingExternal, .never, 240, .high, .tier2Analyst⟩,
      ⟨.amountMismatch, .conditional, 120, .medium, .tier2Analyst⟩,
      ⟨.duplicateInternal, .always, 60, .high, .tier2Analyst⟩,
      ⟨.duplicateExternal, .never, 120, .high, .tier2Analyst⟩,
      ⟨.dateMismatch, .conditional, 480, .low, .tier2Analyst⟩,
      ⟨.currencyMismatch, .never, 240, .medium, .tier2Analyst⟩,
      ⟨.directionReversal, .never, 30, .critical, .tier4Compliance⟩,
      ⟨.partialMatch, .always, 240, .low, .tier2Analyst⟩,
      ⟨.nettedSettlement, .always, 480, .low, .tier2Analyst⟩,
      ⟨.feeDeduction, .always, 120, .low, .tier2Analyst⟩,
      ⟨.fxVariance, .never, 240, .medium, .tier2Analyst⟩,
      ⟨.staleTransaction, .never, 1440, .medium, .tier2Analyst⟩,
      ⟨.formatError, .never, 60, .high, .tier2Analyst⟩,
      ⟨.referenceTruncated, .conditional, 120, .low, .tier2Analyst⟩,
      ⟨.timezoneOffset, .always, 60, .low, .tier2Analyst⟩,
      ⟨.reversalPending, .never, 1440, .medium, .tier2Analyst⟩,
      ⟨.regulatoryHold, .never, 2880, .critical, .tier4Compliance⟩,
      ⟨.settlementDelay, .never, 1440, .medium, .tier2Analyst⟩]
  covers category := by cases category <;> rfl

/-- The shipped taxonomy with every rule but those of compliance starting in tier 1: the validators
ask for one rule a category and for positive figures, and say nothing about the default tier. -/
def automaticTaxonomy : TaxonomyConfig :=
  { shippedTaxonomy with
    categories := shippedTaxonomy.categories.map fun rule =>
      if rule.defaultTier = .tier4Compliance then rule else { rule with defaultTier := .tier1Auto }
    covers := fun category => by cases category <;> rfl }

/-- An amount mismatch whose difference is unknown is then in tier 1. -/
theorem automaticTaxonomy_route :
    ¬ ∀ (ctx : ExceptionContext) (tax : TaxonomyConfig) (createdAt : Instant),
      (route ctx tax createdAt).tier = .tier1Auto →
        EligibleInContext ctx (tax.ruleFor ctx.category) tax ∧ ValueWithinSenior ctx tax ∧
          ¬ ComplianceCalled ctx (tax.ruleFor ctx.category) tax := by
  intro hall
  have htier : (route { category := .amountMismatch } automaticTaxonomy 0).tier = .tier1Auto := by
    decide
  have heligible := autoResolveEligible_iff.2 (hall _ _ _ htier).1
  exact absurd heligible (by decide)

end Recon
