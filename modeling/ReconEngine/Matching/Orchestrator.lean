import ReconEngine.Matching.Constraints
import ReconEngine.Matching.CrossCurrency
import ReconEngine.Matching.ExactSetBased
import ReconEngine.Matching.Progress

/-!
# The stages of a run

`MatchingOrchestrator` runs the matching levels in order, the stronger evidence first, and fetches
the pools of every level anew: a weaker match never overrides a stronger one. FAST mode stops
after the exact stage.

The stages report in their own units. The number of externals that the run has matched is not
added up from the reports; it is what is missing from the pool at the end, less the reviews.

The durations are left out.

**The law** (`orchestrator_accounts`): in both modes, what the run reports as matched, under review
and left over are the parts into which the externals of its first pool divide.

**What it does not establish.** That the stages count in one unit; they do not, which is why the run
does not add them up. Another writer between two stages would change the pools, and is not looked at
here.
-/

set_option autoImplicit false

namespace Recon

open Store.Prog hiding pure bind

/-- What the orchestrator is constructed with; `fx` tells whether it has a rate service. -/
structure Orchestrator where
  run : Id
  blocking : BlockingConfig
  amountToleranceMinor : Int
  matching : MatchingConfig
  text : TextSimilarity
  setBasedExact : Bool := false
  mode : RunMode := .full
  range : DateRange := {}
  rules : Option RuleStageConfig := none
  fx : Bool := false
  audit : Option Auditor := none

/-- The rates of `RunMetrics`. -/
structure MatchRates where
  exactMatchRateOfTotal : Rat
  exactMatchRateOfMatchable : Rat
  overallMatchRateOfTotal : Rat
deriving DecidableEq, Repr

structure OrchestratorOutcome where
  exact : ExactMatchOutcome
  fuzzy : FuzzyMatchOutcome
  internalPoolSizeBeforeExact : Nat
  externalPoolSizeBeforeExact : Nat
  internalPoolSizeBeforeFuzzy : Nat
  externalPoolSizeBeforeFuzzy : Nat
  rates : MatchRates
  rule : Option RuleMatchOutcome
  crossCurrency : Option CrossCurrencyOutcome
  group : Option GroupMatchOutcome
  externalsMatched : Int
deriving DecidableEq, Repr

def GroupMatchOutcome.groupCount (outcome : GroupMatchOutcome) : Nat :=
  outcome.splitGroups + outcome.nettedGroups

/-- Auto-matched pairs and groups, counting a group once. -/
def OrchestratorOutcome.totalMatchedCount (out : OrchestratorOutcome) : Nat :=
  out.exact.matchedCount + out.fuzzy.autoMatchedCount +
    (out.rule.map (·.autoMatchedCount)).getD 0 +
    (out.crossCurrency.map (·.matchedCount)).getD 0 + (out.group.map (·.groupCount)).getD 0

def OrchestratorOutcome.totalPendingReviewCount (out : OrchestratorOutcome) : Nat :=
  out.fuzzy.reviewCount + (out.rule.map (·.reviewCount)).getD 0

/-- `_safe_rate`: 0 on an empty pool. -/
def safeRate (numerator denominator : Int) : Rat :=
  if denominator ≤ 0 then 0 else numerator / denominator

def countUnmatched (bankCode : String) (source : Source) (range : DateRange) : Prog Nat := do
  let d ← tables
  return d.countUnmatched bankCode source range

@[simp] theorem wp_countUnmatched {bankCode : String} {source : Source} {range : DateRange}
    {Q : Nat → Session → Prop} {E : ReconError → Session → Prop} {s : Session} :
    (countUnmatched bankCode source range).wp Q E s ↔
      Q (s.view.countUnmatched bankCode source range) s := Iff.rfl

namespace Orchestrator

variable (o : Orchestrator) (bankCode : String)

def setBasedStage : Prog Nat :=
  if o.setBasedExact then setBasedRun o.run bankCode o.range else return 0

def exactStage : Prog ExactMatchOutcome := do
  let (internals, externals) ← pools bankCode o.range
  exactRun o.run internals externals

def crossCurrencyStage (rules : RuleStageConfig) : Prog (Option CrossCurrencyOutcome) :=
  if o.fx then do
    let (internals, externals) ← pools bankCode o.range
    let outcome ← crossCurrencyRun
      { run := o.run, tolerancePercent := rules.fxTolerancePercent, audit := o.audit }
      internals externals
    return some outcome
  else return none

/-- `_run_group_stage`. -/
def runGroupStage (rules : RuleStageConfig) :
    Prog (Option CrossCurrencyOutcome × Option GroupMatchOutcome) := do
  let cross ← o.crossCurrencyStage bankCode rules
  let (internals, externals) ← pools bankCode o.range
  let group ← groupRun { run := o.run, config := rules.group, fx := o.fx, audit := o.audit }
    internals externals
  return (cross, some group)

/-- The rules of the stages that only a FULL run with rules has. -/
def fullRules : Option RuleStageConfig :=
  match o.mode with
  | .full => o.rules
  | .fast => none

def groupStage : Prog (Option CrossCurrencyOutcome × Option GroupMatchOutcome) :=
  match o.fullRules with
  | some rules => o.runGroupStage bankCode rules
  | none => return (none, none)

/-- The fuzzy stage on the pools that are fetched before it. -/
def fuzzyStage (internals externals : List NormalisedTransaction) : Prog FuzzyMatchOutcome :=
  match o.mode with
  | .fast => return {}
  | .full => fuzzyRun
    { run := o.run, blocking := o.blocking, amountToleranceMinor := o.amountToleranceMinor,
      config := o.matching, text := o.text } internals externals

/-- `_run_rule_stage`. -/
def ruleStage : Prog (Option RuleMatchOutcome) :=
  match o.fullRules with
  | some rules => do
    let (internals, externals) ← pools bankCode o.range
    let outcome ← ruleRun
      { run := o.run, registry := rules.registry, blocking := o.blocking, config := o.matching }
      internals externals
    return some outcome
  | none => return none

/-- `MatchingOrchestrator.run`. -/
def execute : Prog OrchestratorOutcome := do
  let internalTotal ← countUnmatched bankCode .internal o.range
  let externalTotal ← countUnmatched bankCode .external o.range
  let setBasedMatched ← o.setBasedStage bankCode
  let pythonExact ← o.exactStage bankCode
  let exact := { pythonExact with matchedCount := setBasedMatched + pythonExact.matchedCount }
  let (cross, group) ← o.groupStage bankCode
  -- Re-fetched and not reused, so that a transaction matched so far is out of reach.
  let (internals, externals) ← pools bankCode o.range
  let fuzzy ← o.fuzzyStage internals externals
  let rule ← o.ruleStage bankCode
  let remaining ← countUnmatched bankCode .external o.range
  let pendingReview := fuzzy.reviewCount + (rule.map (·.reviewCount)).getD 0
  let externalsMatched : Int := externalTotal - remaining - pendingReview
  return {
    exact
    fuzzy
    internalPoolSizeBeforeExact := internalTotal
    externalPoolSizeBeforeExact := externalTotal
    internalPoolSizeBeforeFuzzy := internals.length
    externalPoolSizeBeforeFuzzy := externals.length
    rates := {
      exactMatchRateOfTotal := safeRate exact.matchedCount externalTotal
      exactMatchRateOfMatchable := safeRate exact.matchedCount externalsMatched
      overallMatchRateOfTotal := safeRate externalsMatched externalTotal }
    rule
    crossCurrency := cross
    group
    externalsMatched }

end Orchestrator

/-! ## What is accounted for, stage by stage -/

/-- Since `d`, where the next identifier was `n`: the results written so far, `reviews` of them
under review. -/
structure Accounted (d : Db) (n : Nat) (bankCode : String) (range : DateRange) (reviews : Nat)
    (s : Session) : Prop where
  ledger : Ledger s.supply s.view
  since : n ≤ s.supply
  written : ∃ new, d.Advanced s.view new ∧
    (∀ r ∈ new, FromPools d bankCode range r.toMatchColumns) ∧ Grouped n s.supply new ∧
    new.countP (·.status = .pendingReview) = reviews

namespace Accounted

variable {d : Db} {n : Nat} {bankCode : String} {range : DateRange} {k : Nat} {s s' : Session}

/-- A run starts with empty accounts. -/
theorem start (h : Ledger s.supply s.view) : Accounted s.view s.supply bankCode range 0 s where
  ledger := h
  since := Nat.le_refl _
  written := ⟨[], Db.Advanced.refl _, fun _ h => absurd h List.not_mem_nil,
    Grouped.of_pairs fun _ h => absurd h List.not_mem_nil, rfl⟩

/-- The results of one more stage, which paired what was still in the pools. -/
theorem extend {new : List MatchResult} (h : Accounted d n bankCode range k s)
    (hledger : Ledger s'.supply s'.view) (hsupply : s.supply ≤ s'.supply)
    (hadv : s.view.Advanced s'.view new)
    (hrows : ∀ r ∈ new, FromPools s.view bankCode range r.toMatchColumns)
    (hgrouped : Grouped s.supply s'.supply new) :
    Accounted d n bankCode range (k + new.countP (·.status = .pendingReview)) s' where
  ledger := hledger
  since := Nat.le_trans h.since hsupply
  written := by
    obtain ⟨old, hold, hfrom, hold_grouped, hcount⟩ := h.written
    refine ⟨old ++ new, hold.trans hadv, fun r hr => ?_,
      hold_grouped.append hgrouped h.since hsupply, by rw [List.countP_append, hcount]⟩
    rcases List.mem_append.mp hr with hr | hr
    · exact hfrom r hr
    · obtain ⟨hs, hi, he⟩ := hrows r hr
      exact ⟨hs, hold.ids_findUnmatched hi, hold.ids_findUnmatched he⟩

section

variable {α : Type} {ok : MatchColumns → Prop} {p : Prog α}

/-- What a level on the current pools adds. -/
theorem level_adds (hp : OnPools ok (s.view.findUnmatched bankCode .internal range)
      (s.view.findUnmatched bankCode .external range) p) :
    p.wp (fun _ s' => s.supply ≤ s'.supply ∧ ∃ new, s.view.Advanced s'.view new ∧
        ∀ r ∈ new, ok r.toMatchColumns ∧ FromPools s.view bankCode range r.toMatchColumns)
      (fun _ _ => True) s := by
  refine (advances hp.work s).mono ?_ fun _ _ h => h
  rintro _ s' ⟨hsupply, new, hadv, hrows⟩
  refine ⟨hsupply, new, hadv, fun r hr => ?_⟩
  have hrow := hrows r hr
  exact ⟨hrow.made, hrow.stands, hrow.allowed.1, hrow.allowed.2.1⟩

/-- A level of pairs that reports how many of them are under review. -/
theorem pairs {reviews : α → Nat} (h : Accounted d n bankCode range k s)
    (hp : OnPools (·.matchGroupId = none) (s.view.findUnmatched bankCode .internal range)
      (s.view.findUnmatched bankCode .external range) p)
    (hledger : p.wp (fun _ s' => Workable (ids (s.view.findUnmatched bankCode .internal range) ++
      ids (s.view.findUnmatched bankCode .external range)) [] s'.supply s'.view) (fun _ _ => True) s)
    (hreviews : ∀ j, Reviews j s → p.wp (fun a s' => Reviews (j + reviews a) s')
      (fun _ _ => True) s) :
    p.wp (fun a s' => Accounted d n bankCode range (k + reviews a) s') (fun _ _ => True) s := by
  have hcounted := hreviews s.view.pendingReviews ⟨h.ledger.claimBelow, rfl⟩
  refine (hledger.and ((level_adds hp).and hcounted)).mono ?_ fun _ _ _ => trivial
  rintro a s' ⟨hwork, ⟨hsupply, new, hadv, hrows⟩, hcount⟩
  have hnew : new.countP (·.status = .pendingReview) = reviews a := by
    have := hcount.count
    rw [Db.pendingReviews, hadv.results, List.countP_append] at this
    exact Nat.add_left_cancel this
  rw [← hnew]
  exact h.extend hwork.of_nil hsupply hadv (fun r hr => (hrows r hr).2)
    (Grouped.of_pairs fun r hr => (hrows r hr).1)

/-- A level of pairs that are matched at once. -/
theorem autoPairs (h : Accounted d n bankCode range k s)
    (hp : OnPools (·.AutoPair) (s.view.findUnmatched bankCode .internal range)
      (s.view.findUnmatched bankCode .external range) p)
    (hledger : p.wp (fun _ s' => Workable (ids (s.view.findUnmatched bankCode .internal range) ++
      ids (s.view.findUnmatched bankCode .external range)) [] s'.supply s'.view)
      (fun _ _ => True) s) :
    p.wp (fun _ s' => Accounted d n bankCode range k s') (fun _ _ => True) s := by
  refine (hledger.and (level_adds hp)).mono ?_ fun _ _ _ => trivial
  rintro _ s' ⟨hwork, hsupply, new, hadv, hrows⟩
  have hnone : new.countP (·.status = .pendingReview) = 0 := by
    refine List.countP_eq_zero.mpr fun r hr => ?_
    simp [show r.status = .autoMatched from (hrows r hr).1.1]
  have hnow := h.extend hwork.of_nil hsupply hadv (fun r hr => (hrows r hr).2)
    (Grouped.of_pairs fun r hr => (hrows r hr).1.2)
  rwa [hnone] at hnow

end

/-! ## The stages -/

theorem setBasedStage {o : Orchestrator} (h : Accounted d n bankCode o.range k s) :
    (o.setBasedStage bankCode).wp (fun _ s' => Accounted d n bankCode o.range k s')
      (fun _ _ => True) s := by
  unfold Orchestrator.setBasedStage
  split
  · have hspec := setBasedRun_spec o.run bankCode o.range h.ledger.transactionIds
    have hledger := setBasedRun_ledger o.run bankCode o.range h.ledger
    refine (hspec.and hledger).mono ?_ fun _ _ _ => trivial
    rintro _ s' ⟨⟨hview, hsupply⟩, hledger⟩
    have hadv : s.view.Advanced s'.view
        (resultRows s.supply (setBasedColumns o.run s.view bankCode o.range) ++ []) := by
      rw [hview]
      exact (Db.Advanced.record _ _ _).trans (Db.Advanced.setStatus _ _)
    rw [List.append_nil] at hadv
    have hrows : ∀ r ∈ resultRows s.supply (setBasedColumns o.run s.view bankCode o.range),
        r.AutoPair ∧ FromPools s.view bankCode o.range r.toMatchColumns := by
      intro r hr
      obtain ⟨⟨i, e⟩, hp, hcolumns⟩ := List.mem_map.mp (mem_resultRows hr).1
      obtain ⟨hpair, -⟩ := mem_setBasedAllowed.mp hp
      obtain ⟨hi, his, -⟩ := mem_setBasedPairs.mp hpair
      obtain ⟨he, -, hes⟩ := external_of_mem_setBasedPairs hpair
      obtain ⟨hi, hbi, hsi, -, hri, hfi⟩ := mem_setBasedPool.mp hi
      obtain ⟨he, hbe, hse, -, hre, hfe⟩ := mem_setBasedPool.mp he
      rw [← hcolumns]
      exact ⟨exactColumns_autoPair _ _ _ _, (exactColumns_autoPair _ _ _ _).stands,
        List.mem_map_of_mem (Db.mem_findUnmatched.mpr
          ⟨hi, Db.available_iff.mpr ⟨hbi, his, hsi, hfi, hri⟩⟩),
        List.mem_map_of_mem (Db.mem_findUnmatched.mpr
          ⟨he, Db.available_iff.mpr ⟨hbe, hes, hse, hfe, hre⟩⟩)⟩
    have hnone : (resultRows s.supply (setBasedColumns o.run s.view bankCode o.range)).countP
        (·.status = .pendingReview) = 0 := by
      refine List.countP_eq_zero.mpr fun r hr => ?_
      simp [show r.status = .autoMatched from (hrows r hr).1.1]
    have hnow := h.extend hledger (by omega) hadv (fun r hr => (hrows r hr).2)
      (Grouped.of_pairs fun r hr => (hrows r hr).1.2)
    rwa [hnone] at hnow
  · exact wp_pure.mpr h

theorem exactStage {o : Orchestrator} (h : Accounted d n bankCode o.range k s) :
    (o.exactStage bankCode).wp (fun _ s' => Accounted d n bankCode o.range k s')
      (fun _ _ => True) s :=
  wp_bind.mpr (wp_pools.mpr (h.autoPairs (exactRun_onPools _ _ _)
    (exactRun_workable (h.ledger.workable bankCode o.range))))

theorem crossCurrencyStage {o : Orchestrator} {rules : RuleStageConfig}
    (h : Accounted d n bankCode o.range k s) :
    (o.crossCurrencyStage bankCode rules).wp (fun _ s' => Accounted d n bankCode o.range k s')
      (fun _ _ => True) s := by
  unfold Orchestrator.crossCurrencyStage
  split
  · refine wp_bind.mpr (wp_pools.mpr (wp_bind.mpr ?_))
    exact h.autoPairs crossCurrencyRun_onPools
      (crossCurrencyRun_workable (h.ledger.workable bankCode o.range))
  · exact wp_pure.mpr h

theorem groupStage {o : Orchestrator} (h : Accounted d n bankCode o.range k s) :
    (o.groupStage bankCode).wp (fun _ s' => Accounted d n bankCode o.range k s')
      (fun _ _ => True) s := by
  unfold Orchestrator.groupStage
  split
  · rename_i rules _
    refine wp_bind.mpr (h.crossCurrencyStage.mono ?_ fun _ _ h => h)
    intro cross s h
    refine wp_bind.mpr (wp_pools.mpr (wp_bind.mpr ?_))
    have hsource : ∀ source, ∀ t ∈ s.view.findUnmatched bankCode source o.range,
        t.source = source := fun source t ht =>
      (Db.available_iff.mp (Db.mem_findUnmatched.mp ht).2).2.1
    have hgroups := groupRun_grouped
      (g := { run := o.run, config := rules.group, fx := o.fx, audit := o.audit })
      (hsource .internal) (hsource .external) (h.ledger.workable bankCode o.range)
      (GroupedSince.start s)
    refine (hgroups.and (level_adds (groupRun_onPools (hsource .internal)
      (hsource .external)))).mono ?_ fun _ _ _ => trivial
    rintro _ s' ⟨⟨hwork, -, new', hnew', hgrouped⟩, hsupply, new, hadv, hrows⟩
    obtain rfl : new = new' := List.append_cancel_left (hadv.results.symm.trans hnew')
    have hnone : new.countP (·.status = .pendingReview) = 0 := by
      refine List.countP_eq_zero.mpr fun r hr => ?_
      simp [show r.status = .autoMatched from (hrows r hr).1]
    have hnow := h.extend hwork.of_nil hsupply hadv (fun r hr => (hrows r hr).2) hgrouped
    rw [hnone] at hnow
    exact wp_pure.mpr hnow
  · exact wp_pure.mpr h

/-- The fuzzy stage keeps them, and reports the reviews that it adds. -/
theorem fuzzyStage {o : Orchestrator} (h : Accounted d n bankCode o.range k s) :
    (o.fuzzyStage (s.view.findUnmatched bankCode .internal o.range)
        (s.view.findUnmatched bankCode .external o.range)).wp
      (fun out s' => Accounted d n bankCode o.range (k + out.reviewCount) s')
      (fun _ _ => True) s := by
  unfold Orchestrator.fuzzyStage
  split
  · exact wp_pure.mpr h
  · exact h.pairs fuzzyRun_onPools (fuzzyRun_workable (h.ledger.workable bankCode o.range))
      fun _ hj => fuzzyRun_reviews hj

/-- The rule stage keeps them, and reports the reviews that it adds. -/
theorem ruleStage {o : Orchestrator} (h : Accounted d n bankCode o.range k s) :
    (o.ruleStage bankCode).wp
      (fun out s' => Accounted d n bankCode o.range (k + (out.map (·.reviewCount)).getD 0) s')
      (fun _ _ => True) s := by
  unfold Orchestrator.ruleStage
  split
  · refine wp_bind.mpr (wp_pools.mpr (wp_bind.mpr ?_))
    exact h.pairs ruleRun_onPools (ruleRun_workable (h.ledger.workable bankCode o.range))
      fun _ hj => ruleRun_reviews hj
  · exact wp_pure.mpr h

end Accounted

/-! ## The accounts of a run -/

/-- The results `new` of a run account for what became of the externals of its first pool. -/
structure Accounts (d d' : Db) (bankCode : String) (range : DateRange) (externalsMatched : Int)
    (new : List MatchResult) : Prop where
  results : d'.results = d.results ++ new
  usedOnce : UsedOnce new
  /-- The reported number is that of the externals that became MATCHED. -/
  matched : externalsMatched = (turnedMatched d d').length
  /-- The externals of the first pool are those that became MATCHED, those of a new result under
  review, and those of the last pool, each exactly once. -/
  externals : (ids (d.findUnmatched bankCode .external range)).Perm
    (turnedMatched d d' ++ reviewedExternals new ++
      ids (d'.findUnmatched bankCode .external range))

theorem length_findUnmatched (d : Db) (bankCode : String) (source : Source) (range : DateRange) :
    (ids (d.findUnmatched bankCode source range)).length = d.countUnmatched bankCode source range := by
  rw [ids, List.length_map, Db.findUnmatched, List.length_insertionSort, Db.countUnmatched,
    List.countP_eq_length_filter]

theorem Accounted.accounts {d : Db} {n : Nat} {bankCode : String} {range : DateRange} {k : Nat}
    {s : Session} (hd : Ledger n d) (h : Accounted d n bankCode range k s) :
    ∃ new, Accounts d s.view bankCode range
      ((d.countUnmatched bankCode .external range : Int) -
        s.view.countUnmatched bankCode .external range - k) new := by
  obtain ⟨new, hadv, hrows, hgrouped, hcount⟩ := h.written
  have hperm := externals_divide hd h.ledger hadv hrows
  refine ⟨new, hadv.results, h.ledger.usedOnce (fun r hr => ?_) hgrouped.oneSided, ?_, hperm⟩
  · exact ⟨hadv.results ▸ List.mem_append_right _ hr, (hrows r hr).1⟩
  · have hlen := hperm.length_eq
    rw [length_findUnmatched, List.length_append, List.length_append, length_findUnmatched,
      reviewedExternals, List.length_map, ← List.countP_eq_length_filter, hcount] at hlen
    omega

/-- Every run of the stages accounts for what it did: it uses no transaction twice, but as the
single side of a group, it reports how many externals it has turned MATCHED, and it divides the
externals of its first pool into those, the ones it put under review and the ones it left. -/
theorem orchestrator_accounts (o : Orchestrator) (bankCode : String) {s : Session}
    (h : Ledger s.supply s.view) :
    (o.execute bankCode).wp
      (fun out s' => ∃ new, Accounts s.view s'.view bankCode o.range out.externalsMatched new)
      (fun _ _ => True) s := by
  unfold Orchestrator.execute
  refine wp_bind.mpr (wp_countUnmatched.mpr (wp_bind.mpr (wp_countUnmatched.mpr ?_)))
  have hstart : Accounted s.view s.supply bankCode o.range 0 s := Accounted.start h
  refine wp_bind.mpr (hstart.setBasedStage.mono ?_ fun _ _ h => h)
  intro setBasedMatched s₁ h₁
  refine wp_bind.mpr (h₁.exactStage.mono ?_ fun _ _ h => h)
  intro pythonExact s₂ h₂
  refine wp_bind.mpr (h₂.groupStage.mono ?_ fun _ _ h => h)
  intro groups s₃ h₃
  refine wp_bind.mpr (wp_pools.mpr (wp_bind.mpr (h₃.fuzzyStage.mono ?_ fun _ _ h => h)))
  intro fuzzy s₄ h₄
  refine wp_bind.mpr (h₄.ruleStage.mono ?_ fun _ _ h => h)
  intro rule s₅ h₅
  rw [Nat.zero_add] at h₅
  have haccounts := h₅.accounts h
  exact wp_bind.mpr (wp_countUnmatched.mpr (wp_pure.mpr haccounts))

/-! ## A run of all stages -/

def stagedRow (id : Id) (source : Source) (amountMinor : Int) (reference : String)
    (counterparty : Option String := none) : NormalisedTransaction :=
  { paymentSide id source reference with
    amountMinor := amountMinor
    originalReferenceText := some reference
    counterpartyNameNormalised := counterparty }

/-- An exact pair, a settlement in two parts, a pair for a review, and an external that is left. -/
def stagedDay : Session where
  committed :=
    { transactions := [stagedRow 1 .internal 500 "INV-77", stagedRow 2 .external 500 "INV-77",
        stagedRow 3 .internal 3000 "SETTLE-24", stagedRow 4 .external 1000 "SETTLE-24-01",
        stagedRow 5 .external 2000 "SETTLE-24-02", stagedRow 6 .internal 700 "CCCC" (some "ACME"),
        stagedRow 7 .external 700 "DDDD" (some "ACME"), stagedRow 8 .external 900 "EEEE"] }
  supply := 9

def stagedRun : Orchestrator where
  run := 0
  blocking := dailyBlocking
  amountToleranceMinor := 0
  matching := shippedMatchingConfig
  text := literalSimilarity
  setBasedExact := true
  rules := some (buildRuleStage (fun name => { name, holidays := [] }) none)
  fx := true

theorem orchestrator_accounts_staged : ∃ out s' new,
    (stagedRun.execute "AXIS").exec stagedDay = (.ok out, s') ∧ out.externalsMatched = 3 ∧
      out.totalPendingReviewCount = 1 ∧
        Accounts stagedDay.view s'.view "AXIS" {} out.externalsMatched new := by
  have hledger : Ledger stagedDay.supply stagedDay.view :=
    Ledger.ingested (by decide) (by decide) (by decide) rfl rfl
  have haccounts := orchestrator_accounts (s := stagedDay) stagedRun "AXIS" hledger
  have hcheck : (match ((stagedRun.execute "AXIS").exec stagedDay).1 with
      | .ok out => some (out.externalsMatched, out.totalPendingReviewCount)
      | .error _ => none) = some (3, 1) := by decide +kernel
  unfold wp at haccounts
  rcases hexec : (stagedRun.execute "AXIS").exec stagedDay with ⟨result, s'⟩
  rw [hexec] at hcheck haccounts
  cases result with
  | error e => cases hcheck
  | ok out =>
    obtain ⟨hmatched, hpending⟩ := Prod.mk.inj (Option.some.inj hcheck)
    obtain ⟨new, haccounts⟩ := haccounts
    exact ⟨out, s', new, rfl, hmatched, hpending, haccounts⟩

end Recon
