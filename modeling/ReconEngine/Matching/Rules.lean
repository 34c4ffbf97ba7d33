import ReconEngine.Matching.Fuzzy
import ReconEngine.Config.Models

/-!
# Rule-based matching

Each rule looks at one pair and accepts it or declines. The registry keeps its rules in priority
order and the first rule that accepts decides. The stage offers every external the blocked
internals that are left; it matches when exactly one of them is accepted by some rule, and leaves
everything else to a later level or a person.

`buildRuleStage` is the bank's registry: Amount Tolerance, then Date Offset. What the rules say in
words is left out.

**The laws** (`ruleHits_allowed`, `ruleRun_onPools`, `ruleRun_reviews`): hits come from the pool and
were not rejected for the external, and the stage reports how many results it puts under review.

**What they do not establish.** That the rule which accepts a pair first is the better one for it:
both rules of a bank may accept one pair.
-/

set_option autoImplicit false

namespace Recon

open Store.Prog hiding pure bind

/-! ## Business days -/

structure BusinessCalendar where
  name : String
  holidays : List Date
deriving DecidableEq, Repr

namespace BusinessCalendar

/-- Monday is 0; the ordinal 1 is a Monday. -/
def weekday (day : Date) : Int := (day + 6) % 7

def isBusinessDay (calendar : BusinessCalendar) (day : Date) : Bool :=
  weekday day < 5 && !calendar.holidays.contains day

/-- The loop of `business_days_between`, with `left` days to go. -/
def countDays (calendar : BusinessCalendar) (day : Date) (count : Nat) : Nat → Nat
  | 0 => count
  | left + 1 =>
    calendar.countDays (day + 1)
      (if calendar.isBusinessDay (day + 1) then count + 1 else count) left

/-- Business days after the earlier date up to and including the later one. -/
def businessDaysBetween (calendar : BusinessCalendar) (start end_ : Date) : Nat :=
  if end_ < start then calendar.countDays end_ 0 (start - end_).toNat
  else calendar.countDays start 0 (end_ - start).toNat

/-- The loop counts the business days that it passes. -/
theorem countDays_eq (calendar : BusinessCalendar) (left : Nat) :
    ∀ (day : Date) (count : Nat), calendar.countDays day count left =
      count + (List.range left).countP fun k : Nat => calendar.isBusinessDay (day + k + 1) := by
  induction left with
  | zero => exact fun _ _ => rfl
  | succ left ih =>
    intro day count
    have hshift : (fun k : Nat => calendar.isBusinessDay (day + 1 + k + 1)) =
        (fun k : Nat => calendar.isBusinessDay (day + k + 1)) ∘ Nat.succ := by
      funext k
      simp only [Function.comp, Nat.succ_eq_add_one, Nat.cast_add, Nat.cast_one]
      congr 1
      ring
    rw [countDays, ih, List.range_succ_eq_map, List.countP_cons, List.countP_map, hshift,
      Nat.cast_zero, add_zero]
    split <;> omega

private theorem toNat_eq_natAbs {days : Int} (h : 0 ≤ days) : days.toNat = days.natAbs := by
  omega

/-- The number of business days between two dates, as a count. -/
theorem businessDaysBetween_eq (calendar : BusinessCalendar) (start end_ : Date) :
    calendar.businessDaysBetween start end_ =
      (List.range (end_ - start).natAbs).countP fun k : Nat =>
        calendar.isBusinessDay (min start end_ + k + 1) := by
  unfold businessDaysBetween
  split
  · rename_i h
    rw [countDays_eq, zero_add, min_eq_right h.le, toNat_eq_natAbs (sub_nonneg.mpr h.le),
      ← Int.natAbs_neg, neg_sub]
  · rename_i h
    rw [countDays_eq, zero_add, min_eq_left (not_lt.mp h),
      toNat_eq_natAbs (sub_nonneg.mpr (not_lt.mp h))]

/-- A date is no business day away from itself, and the order of the dates does not matter. -/
theorem businessDaysBetween_self (calendar : BusinessCalendar) (day : Date) :
    calendar.businessDaysBetween day day = 0 := by
  simp [businessDaysBetween, countDays]

theorem businessDaysBetween_comm (calendar : BusinessCalendar) (a b : Date) :
    calendar.businessDaysBetween a b = calendar.businessDaysBetween b a := by
  have hlen : (b - a).natAbs = (a - b).natAbs := by omega
  simp only [businessDaysBetween_eq, min_comm a b, hlen]

end BusinessCalendar

/-! ## Rules -/

structure RuleResult where
  matched : Bool
  confidenceContribution : Rat
deriving DecidableEq, Repr

structure Rule where
  name : String
  priority : Int
  evaluate : NormalisedTransaction → NormalisedTransaction → RuleResult

def declined : RuleResult := { matched := false, confidenceContribution := 0 }

/-- The rules by priority. -/
abbrev RuleRegistry := List Rule

def RuleRegistry.register (registry : RuleRegistry) (rule : Rule) : Except ReconError RuleRegistry :=
  if registry.any (·.name = rule.name) then
    .error (.valueError ("a rule named " ++ pythonRepr rule.name ++ " is already registered"))
  else .ok ((registry ++ [rule]).insertionSort fun a b => a.priority ≤ b.priority)

/-- The first rule that accepts the pair. -/
def RuleRegistry.evaluate (registry : RuleRegistry) (internal external : NormalisedTransaction) :
    Option (Rule × RuleResult) :=
  (registry.map fun rule => (rule, rule.evaluate internal external)).find? (·.2.matched)

/-- The confidence of both rules. -/
def ruleConfidence : Rat := 9 / 10

/-- Identical references that are not empty. -/
def sameReference (internal external : NormalisedTransaction) : Bool :=
  (usableReference internal).isSome && internal.normalisedReference == external.normalisedReference

def amountToleranceRule (defaultToleranceMinor : Nat)
    (toleranceMinorByCurrency : List (String × Nat)) (maxDaysApart : Nat) : Rule where
  name := "AMOUNT_TOLERANCE"
  priority := 10
  evaluate internal external :=
    if internal.currency ≠ external.currency then declined
    else if internal.direction ≠ external.direction then declined
    else if !sameReference internal external then declined
    else if daysApart internal external > maxDaysApart then declined
    else if (internal.amountMinor - external.amountMinor).natAbs >
        (toleranceMinorByCurrency.lookup internal.currency).getD defaultToleranceMinor then declined
    else { matched := true, confidenceContribution := ruleConfidence }

def dateOffsetRule (calendar : BusinessCalendar) (maxBusinessDays : Nat) : Rule where
  name := "DATE_OFFSET"
  priority := 20
  evaluate internal external :=
    if internal.currency ≠ external.currency ∨ internal.direction ≠ external.direction then declined
    else if !sameReference internal external then declined
    else if internal.amountMinor ≠ external.amountMinor then declined
    else
      let gap := calendar.businessDaysBetween internal.txnDate external.txnDate
      if gap = 0 then declined
      else if gap > maxBusinessDays then declined
      else { matched := true, confidenceContribution := ruleConfidence }

/-! ## The stage's configuration -/

structure RuleStageConfig where
  registry : RuleRegistry
  group : GroupMatchConfig
  fxTolerancePercent : Rat

/-- ±0.01 in minor units, for the currencies that do not have two decimals. -/
def pennyTolerances : List (String × Nat) :=
  (currencyExponents.filter (·.2 ≠ 2)).map fun (currency, exponent) =>
    (currency, if exponent ≥ 2 then 10 ^ (exponent - 2) else 0)

def buildRuleStage (defaultCalendar : String → BusinessCalendar) (bank : Option BankConfig) :
    RuleStageConfig :=
  let tolerance := (bank.map BankConfig.amountToleranceMinor).getD 1
  let fxTolerance := (bank.map BankConfig.fxTolerancePercent).getD (3 / 2)
  let calendar := defaultCalendar ((bank.map BankConfig.calendar).getD "in")
  let dateOffset := (bank.map BankConfig.dateOffsetDays).getD 1
  { registry := [amountToleranceRule tolerance pennyTolerances 3, dateOffsetRule calendar dateOffset]
    group := { toleranceMinor := tolerance, fxTolerancePercent := fxTolerance,
               dateWindowDays := max 2 dateOffset }
    fxTolerancePercent := fxTolerance }

/-- The registry of a bank is what registering its two rules gives. -/
example (defaultCalendar : String → BusinessCalendar) (bank : Option BankConfig) :
    (do
      let registry ← RuleRegistry.register []
        (amountToleranceRule ((bank.map BankConfig.amountToleranceMinor).getD 1) pennyTolerances 3)
      RuleRegistry.register registry (dateOffsetRule
        (defaultCalendar ((bank.map BankConfig.calendar).getD "in"))
        ((bank.map BankConfig.dateOffsetDays).getD 1))) =
      .ok (buildRuleStage defaultCalendar bank).registry := rfl

/-! ## The stage -/

structure RuleStrategy where
  run : Id
  registry : RuleRegistry
  blocking : BlockingConfig
  config : MatchingConfig

structure RuleMatchOutcome where
  autoMatchedCount : Nat := 0
  reviewCount : Nat := 0
  ambiguousCount : Nat := 0
  skippedClaimConflictCount : Nat := 0
  matchResultIds : List Id := []
deriving DecidableEq, Repr

structure RuleState where
  consumed : List Id := []
  outcome : RuleMatchOutcome := {}
deriving DecidableEq, Repr

/-- `_evaluate`: the candidates that some rule accepts. -/
def ruleHits (registry : RuleRegistry) (candidates : List NormalisedTransaction)
    (external : NormalisedTransaction) : List (NormalisedTransaction × Rule × RuleResult) :=
  candidates.filterMap fun internal => (registry.evaluate internal external).map (internal, ·)

/-- The confidence of a rule's result in thousandths. -/
def RuleResult.confidence (result : RuleResult) : Int := halfEven (1000 * result.confidenceContribution)

def RuleResult.isAuto (result : RuleResult) (config : MatchingConfig) : Bool :=
  (result.confidence : Rat) / 1000 > config.thresholds.autoMatchConfidence

def ruleColumns (r : RuleStrategy) (internal external : NormalisedTransaction) (rule : Rule)
    (result : RuleResult) (candidateCount : Nat) : MatchColumns where
  runId := .run r.run
  matchType := .rule
  status := if result.isAuto r.config then .autoMatched else .pendingReview
  confidence := result.confidence.toNat
  internalTransactionId := internal.id
  externalTransactionId := external.id
  candidateCount := candidateCount
  ruleId := some rule.name
  matchedOnDate := external.txnDate

/-- The single hit of an external. -/
def ruleHit (r : RuleStrategy) (st : RuleState) (internal external : NormalisedTransaction)
    (rule : Rule) (result : RuleResult) (candidateCount : Nat) : Prog RuleState := do
  let m := ruleColumns r internal external rule result candidateCount
  match ← recordPair m with
  | none =>
    return { st with outcome.skippedClaimConflictCount := st.outcome.skippedClaimConflictCount + 1 }
  | some id =>
    let st := { st with consumed := internal.id :: st.consumed,
                        outcome.matchResultIds := st.outcome.matchResultIds ++ [id] }
    if result.isAuto r.config then do
      markMatched m
      return { st with outcome.autoMatchedCount := st.outcome.autoMatchedCount + 1 }
    else
      return { st with outcome.reviewCount := st.outcome.reviewCount + 1 }

def ruleTurn (r : RuleStrategy) (generator : CandidateGenerator) (rejected : List (Id × Id))
    (st : RuleState) (external : NormalisedTransaction) : Prog RuleState :=
  match generator.generate external with
  | .error e => .fail e
  | .ok set =>
    let available := availableCandidates rejected st.consumed external set.candidates
    match ruleHits r.registry available external with
    | [] => return st
    | (internal, rule, result) :: others =>
      if others ≠ [] ∨ set.truncated then
        return { st with outcome.ambiguousCount := st.outcome.ambiguousCount + 1 }
      else ruleHit r st internal external rule result available.length

/-- `RuleBasedMatchingStrategy.run`. -/
def ruleRun (r : RuleStrategy) (internals externals : List NormalisedTransaction) :
    Prog RuleMatchOutcome :=
  match CandidateGenerator.build internals r.blocking with
  | .error e => .fail e
  | .ok generator =>
    levelOn internals externals fun rejected => do
      let st ← externals.foldlM (ruleTurn r generator rejected) {}
      return st.outcome

/-! ## What the stage keeps -/

/-- A hit is one of the candidates, accepted by a rule of the registry. -/
theorem mem_ruleHits {registry : RuleRegistry} {candidates : List NormalisedTransaction}
    {internal external : NormalisedTransaction} {rule : Rule} {result : RuleResult}
    (h : (internal, rule, result) ∈ ruleHits registry candidates external) :
    internal ∈ candidates ∧ rule ∈ registry ∧ result = rule.evaluate internal external ∧
      result.matched = true := by
  obtain ⟨t, ht, hsome⟩ := List.mem_filterMap.mp h
  obtain ⟨hit, hhit, heq⟩ := Option.map_eq_some_iff.mp hsome
  cases heq
  obtain ⟨rule', hrule', hpair⟩ := List.mem_map.mp (List.mem_of_find?_eq_some hhit)
  cases hpair
  exact ⟨ht, hrule', rfl, by simpa using List.find?_some hhit⟩

theorem ruleColumns_stands (r : RuleStrategy) (internal external : NormalisedTransaction)
    (rule : Rule) (result : RuleResult) (count : Nat) :
    (ruleColumns r internal external rule result count).status ≠ .rejected := by
  rw [ruleColumns]
  split
  · exact nofun
  · exact nofun

section

variable {r : RuleStrategy} {internals externals : List NormalisedTransaction}
  {generator : CandidateGenerator} {rejected : List (Id × Id)} {st : RuleState}
  {internal external : NormalisedTransaction}

/-- The candidate of a hit is an internal of the pool that was not rejected for the external. -/
theorem ruleHits_allowed {st : RuleState} {rule : Rule} {result : RuleResult} {set : CandidateSet}
    (hg : CandidateGenerator.build internals r.blocking = .ok generator)
    (hset : generator.generate external = .ok set) (he : external ∈ externals)
    (h : (internal, rule, result) ∈ ruleHits r.registry
      (availableCandidates rejected st.consumed external set.candidates) external) :
    Allowed internals externals rejected internal.id external.id := by
  obtain ⟨hcand, -, hrej⟩ := mem_availableCandidates.mp (mem_ruleHits h).1
  obtain ⟨-, hgen⟩ := CandidateGenerator.generate_spec hg hset
  exact ⟨List.mem_map_of_mem (hgen _ hcand).1, List.mem_map_of_mem he, hrej⟩

theorem ruleHit_work {W : RowWrite → Prop} {rule : Rule} {result : RuleResult} {count : Nat}
    (hclaim : ∀ c, W (.insertClaim c)) (hset : ∀ c r, W (.claimResult c r))
    (hmark : ∀ t, W (.transactionStatus t .matched))
    (hresult : ∀ id, W (.insertResult
      { ruleColumns r internal external rule result count with id := id })) :
    (ruleHit r st internal external rule result count).Work W := by
  refine Work.bind (recordPair_work hclaim hset hresult) fun id => ?_
  cases id with
  | none => exact work_pure _
  | some id =>
    dsimp only
    split
    · exact Work.bind (markAll_work hmark _) fun _ => work_pure _
    · exact work_pure _

theorem ruleHit_workable {rule : Rule} {result : RuleResult} {count : Nat} {s : Session}
    (hi : internal ∈ internals) (he : external ∈ externals)
    (h : Workable (ids internals ++ ids externals) [] s.supply s.view) :
    (ruleHit r st internal external rule result count).wp
      (fun _ s' => Workable (ids internals ++ ids externals) [] s'.supply s'.view)
      (fun _ _ => False) s := by
  refine wp_bind.mpr ((recordPair_workable h (List.mem_append_left _ (List.mem_map_of_mem hi))
    (List.mem_append_right _ (List.mem_map_of_mem he)) (ruleColumns_stands _ _ _ _ _ _)).mono ?_
      fun _ _ h => h)
  intro id s' h'
  cases id with
  | none => exact h'
  | some id =>
    by_cases hauto : result.isAuto r.config = true
    · have hmarks : (ruleColumns r internal external rule result count).marks =
          [internal.id, external.id] := by
        simp [ruleColumns, MatchColumns.marks, hauto]
      simp only [hauto, if_true]
      rw [hmarks] at h'
      exact wp_bind.mpr ((markMatched_workable h').mono (fun _ _ h => h) fun _ _ h => h)
    · have hmarks : (ruleColumns r internal external rule result count).marks = [] := by
        simp [ruleColumns, MatchColumns.marks, hauto]
      simp only [hauto]
      rw [hmarks] at h'
      exact h'

theorem ruleTurn_workable {s : Session}
    (hg : CandidateGenerator.build internals r.blocking = .ok generator)
    (he : external ∈ externals)
    (h : Workable (ids internals ++ ids externals) [] s.supply s.view) :
    (ruleTurn r generator rejected st external).wp
      (fun _ s' => Workable (ids internals ++ ids externals) [] s'.supply s'.view)
      (fun _ _ => True) s := by
  unfold ruleTurn
  split
  · trivial
  · rename_i set hset
    dsimp only
    split
    · exact h
    · rename_i internal rule result others hhits
      split
      · exact h
      · have hmem : (internal, rule, result) ∈ ruleHits r.registry
            (availableCandidates rejected st.consumed external set.candidates) external := by
          rw [hhits]
          exact List.mem_cons_self
        have hcand := (mem_availableCandidates.mp (mem_ruleHits hmem).1).1
        have hi := ((CandidateGenerator.generate_spec hg hset).2 internal hcand).1
        exact (ruleHit_workable hi he h).mono (fun _ _ h => h) fun _ _ _ => trivial

/-- The stage keeps to the rejections. -/
theorem ruleRun_onPools :
    OnPools (·.matchGroupId = none) internals externals (ruleRun r internals externals) := by
  unfold ruleRun
  split
  · rename_i e _
    exact Or.inl ⟨e, rfl⟩
  · rename_i generator hg
    refine Or.inr ⟨_, rfl, fun rejected => Work.bind ?_ fun _ => work_pure _⟩
    refine Work.foldlM _ _ fun st external he => ?_
    unfold ruleTurn
    split
    · exact work_fail _
    · rename_i set hset
      dsimp only
      split
      · exact work_pure _
      · rename_i internal rule result others hhits
        split
        · exact work_pure _
        · have hmem : (internal, rule, result) ∈ ruleHits r.registry
              (availableCandidates rejected st.consumed external set.candidates) external := by
            rw [hhits]
            exact List.mem_cons_self
          exact ruleHit_work (fun _ => trivial) (fun _ _ => trivial) (fun _ => rfl) fun id =>
            ⟨rfl, ruleColumns_stands _ _ _ _ _ _, ruleHits_allowed hg hset he hmem⟩

theorem ruleRun_workable {s : Session}
    (h : Workable (ids internals ++ ids externals) [] s.supply s.view) :
    (ruleRun r internals externals).wp
      (fun _ s' => Workable (ids internals ++ ids externals) [] s'.supply s'.view)
      (fun _ _ => True) s := by
  unfold ruleRun
  split
  · trivial
  · rename_i generator hg
    simp only [bind_eq, wp_bind, wp_levelOn]
    refine (wp_foldlM (I := fun _ s =>
      Workable (ids internals ++ ids externals) [] s.supply s.view) externals ?_ _ s h).mono
        (fun _ _ h => wp_pure.mpr h) fun _ _ h => h
    exact fun external he st s' h' => ruleTurn_workable hg he h'

theorem ruleHit_reviews {rule : Rule} {result : RuleResult} {count : Nat} {s : Session} {k : Nat}
    (h : Reviews (k + st.outcome.reviewCount) s) :
    (ruleHit r st internal external rule result count).wp
      (fun st' s' => Reviews (k + st'.outcome.reviewCount) s') (fun _ _ => False) s := by
  refine wp_bind.mpr ((recordPair_reviews h).mono ?_ fun _ _ h => h)
  intro id s' h'
  cases id with
  | none => simpa using h'
  | some id =>
    by_cases hauto : result.isAuto r.config = true
    · have hnow : Reviews (k + st.outcome.reviewCount) s' := by
        simpa [ruleColumns, hauto] using h'
      simp only [hauto, if_true]
      exact wp_bind.mpr ((markAll_reviews hnow).mono (fun _ _ h => h) fun _ _ h => h)
    · have hnow : Reviews (k + st.outcome.reviewCount + 1) s' := by
        simpa [ruleColumns, hauto] using h'
      simp only [hauto]
      exact hnow

/-- A turn adds to the reviews as it reports. -/
theorem ruleTurn_reviews {s : Session} {k : Nat} (h : Reviews (k + st.outcome.reviewCount) s) :
    (ruleTurn r generator rejected st external).wp
      (fun st' s' => Reviews (k + st'.outcome.reviewCount) s') (fun _ _ => True) s := by
  unfold ruleTurn
  split
  · trivial
  · dsimp only
    split
    · exact h
    · split
      · exact h
      · exact (ruleHit_reviews h).mono (fun _ _ h => h) fun _ _ _ => trivial

/-- The stage reports how many results it puts under review. -/
theorem ruleRun_reviews {s : Session} {k : Nat} (h : Reviews k s) :
    (ruleRun r internals externals).wp (fun out s' => Reviews (k + out.reviewCount) s')
      (fun _ _ => True) s := by
  unfold ruleRun
  split
  · trivial
  · simp only [bind_eq, wp_bind, wp_levelOn]
    refine (wp_foldlM (I := fun (st : RuleState) s => Reviews (k + st.outcome.reviewCount) s)
      externals ?_ {} s h).mono (fun _ _ h => wp_pure.mpr h) fun _ _ h => h
    exact fun external _ st s' h' => ruleTurn_reviews h'

end

end Recon
