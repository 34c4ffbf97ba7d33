import ReconEngine.Matching.Fx

/-!
# Cross-currency matching

`CrossCurrencyStrategy` compares an external and an internal with the same reference and direction
but different currencies in INR, each leg at the rate of its own booking date. The pair matches
when the difference is within the bank's tolerance; with more than one internal to choose from
nothing is claimed. The figures of the audit entry and of the rationale are left out.

**The law of a turn** (`crossCurrencyTurn_stage`): what a turn pairs comes from the pools and was
not rejected, which is what every level is asked for.

**What it does not establish.** That the comparison of two INR amounts is the one a group makes of
the same tolerance: that is `Matching.FxBounds`.
-/

set_option autoImplicit false

namespace Recon

open Store.Prog hiding pure bind

structure CrossCurrencyOutcome where
  matchedCount : Nat := 0
  outOfToleranceCount : Nat := 0
  ambiguousCount : Nat := 0
  missingFxCount : Nat := 0
  skippedClaimConflictCount : Nat := 0
  matchResultIds : List Id := []
deriving DecidableEq, Repr

/-- What the strategy is constructed with. -/
structure CrossCurrencyConfig where
  run : Id
  tolerancePercent : Rat
  maxDaysApart : Nat := 3
  audit : Option Auditor

structure CrossCurrencyState where
  outcome : CrossCurrencyOutcome := {}
  consumed : List Id := []

/-- The internals an external may be compared with. An internal without a reference is not in the
index, and an external without one looks up the empty reference. -/
def crossCurrencyPeers (maxDaysApart : Nat) (internals : List NormalisedTransaction)
    (rejected : List (Id × Id)) (consumed : List Id) (external : NormalisedTransaction) :
    List NormalisedTransaction :=
  internals.filter fun i =>
    i.normalisedReference.any (!·.isEmpty) &&
      i.normalisedReference == some (external.normalisedReference.getD "") &&
      !consumed.contains i.id && !rejected.contains (i.id, external.id) &&
      i.currency != external.currency && i.direction == external.direction &&
      decide (daysApart i external ≤ maxDaysApart)

def crossCurrencyColumns (run : Id) (internal external : NormalisedTransaction) : MatchColumns where
  runId := .run run
  matchType := .crossCurrency
  status := .autoMatched
  confidence := 900
  internalTransactionId := internal.id
  externalTransactionId := external.id
  candidateCount := 1
  ruleId := some "CROSS_CURRENCY_TOLERANCE"
  matchedOnDate := external.txnDate

def crossCurrencyEvent (now : Instant) (m : MatchColumns) (result : Id) : AuditEvent where
  chainId := matchingChain
  actorType := "SYSTEM"
  actorId := "cross-currency-matcher"
  actionType := "MATCH"
  affectedRecords := .dict
    [(.str "match_result_id", .str (toString result)),
      (.str "internal_transaction_id", .str (toString m.internalTransactionId)),
      (.str "external_transaction_id", .str (toString m.externalTransactionId))]
  rationale := "Cross-currency"
  occurredAt := { utc := now }
  afterState := .dict
    [(.str "match_type", .str "CROSS_CURRENCY"), (.str "status", .str "AUTO_MATCHED"),
      (.str "rule_id", .str "CROSS_CURRENCY_TOLERANCE")]

/-- `_match`. The statuses are flushed with the audit entry, after its chain is locked. -/
def crossCurrencyMatch (config : CrossCurrencyConfig) (internal external : NormalisedTransaction)
    (st : CrossCurrencyState) : Prog CrossCurrencyState := do
  let m := crossCurrencyColumns config.run internal external
  match ← recordPair m with
  | none =>
    let conflicts := st.outcome.skippedClaimConflictCount + 1
    return { st with outcome.skippedClaimConflictCount := conflicts }
  | some id =>
    auditIf config.audit fun now => crossCurrencyEvent now m id
    markMatched m
    let outcome : CrossCurrencyOutcome :=
      { st.outcome with
        matchedCount := st.outcome.matchedCount + 1
        matchResultIds := st.outcome.matchResultIds ++ [id] }
    return { outcome := outcome, consumed := internal.id :: st.consumed }

/-- One external looks for its peer. -/
def crossCurrencyTurn (config : CrossCurrencyConfig) (internals : List NormalisedTransaction)
    (rejected : List (Id × Id)) (st : CrossCurrencyState) (external : NormalisedTransaction) :
    Prog CrossCurrencyState :=
  match crossCurrencyPeers config.maxDaysApart internals rejected st.consumed external with
  | [] => return st
  | [internal] => do
    match ← legInr internal with
    | none => return { st with outcome.missingFxCount := st.outcome.missingFxCount + 1 }
    | some internalInr =>
      match ← legInr external with
      | none => return { st with outcome.missingFxCount := st.outcome.missingFxCount + 1 }
      | some externalInr =>
        if relativeDifferencePercent internalInr externalInr > config.tolerancePercent then
          return { st with outcome.outOfToleranceCount := st.outcome.outOfToleranceCount + 1 }
        else
          crossCurrencyMatch config internal external st
  | _ => return { st with outcome.ambiguousCount := st.outcome.ambiguousCount + 1 }

/-- `CrossCurrencyStrategy.run`. -/
def crossCurrencyRun (config : CrossCurrencyConfig)
    (internals externals : List NormalisedTransaction) : Prog CrossCurrencyOutcome :=
  levelOn internals externals fun rejected => do
    let st ← externals.foldlM (crossCurrencyTurn config internals rejected) {}
    return st.outcome

/-! ## What the stage keeps -/

theorem crossCurrencyColumns_autoPair (run : Id) (internal external : NormalisedTransaction) :
    (crossCurrencyColumns run internal external).AutoPair := ⟨rfl, rfl⟩

/-- A peer is of the pool and was not rejected for the external. -/
theorem mem_crossCurrencyPeers {maxDaysApart : Nat} {internals : List NormalisedTransaction}
    {rejected : List (Id × Id)} {consumed : List Id} {internal external : NormalisedTransaction}
    (h : internal ∈ crossCurrencyPeers maxDaysApart internals rejected consumed external) :
    internal ∈ internals ∧ (internal.id, external.id) ∉ rejected := by
  obtain ⟨hmem, hcond⟩ := List.mem_filter.mp h
  simp only [Bool.and_eq_true, Bool.not_eq_true', List.contains_eq_mem, decide_eq_false_iff_not]
    at hcond
  exact ⟨hmem, hcond.1.1.1.2⟩

section

variable {config : CrossCurrencyConfig} {internals externals : List NormalisedTransaction}
  {rejected : List (Id × Id)} {st : CrossCurrencyState} {external internal : NormalisedTransaction}

theorem crossCurrencyMatch_stage
    (h : Allowed internals externals rejected internal.id external.id) :
    (crossCurrencyMatch config internal external st).Work
      (LevelWrite (Proposed (·.AutoPair) internals externals rejected)) := by
  have hpair := crossCurrencyColumns_autoPair config.run internal external
  refine Work.bind (recordPair_level ⟨hpair, hpair.stands, h⟩) fun id => ?_
  cases id with
  | none => exact work_pure _
  | some id =>
    exact Work.bind (auditIf_work _ fun _ _ h => h) fun _ =>
      Work.bind markMatched_level fun _ => work_pure _

/-- Writing such a pair keeps the pools workable. -/
theorem crossCurrencyMatch_workable {s : Session} {pool : List Id} (hi : internal.id ∈ pool)
    (he : external.id ∈ pool) (h : Workable pool [] s.supply s.view) :
    (crossCurrencyMatch config internal external st).wp
      (fun _ s' => Workable pool [] s'.supply s'.view) (fun _ _ => True) s := by
  rw [crossCurrencyMatch, bind_eq, wp_bind]
  refine (recordPair_workable h hi he (crossCurrencyColumns_autoPair _ _ _).stands).mono ?_
    fun _ _ _ => trivial
  rintro (_ | id) s' h'
  · exact h'
  · refine wp_bind.mpr ((auditIf_workable h').mono ?_ fun _ _ h => h)
    intro _ s'' h''
    refine wp_bind.mpr ((markMatched_workable h'').mono ?_ fun _ _ _ => trivial)
    exact fun _ _ h => h

/-- A turn pairs what it may. -/
theorem crossCurrencyTurn_stage (he : external ∈ externals) :
    (crossCurrencyTurn config internals rejected st external).Work
      (LevelWrite (Proposed (·.AutoPair) internals externals rejected)) := by
  unfold crossCurrencyTurn
  split
  · exact work_pure _
  · rename_i internal hpeers
    obtain ⟨hi, hrej⟩ := mem_crossCurrencyPeers (hpeers ▸ List.mem_singleton_self internal)
    refine Work.bind (work_legInr _) fun internalInr => ?_
    cases internalInr with
    | none => exact work_pure _
    | some internalInr =>
      refine Work.bind (work_legInr _) fun externalInr => ?_
      cases externalInr with
      | none => exact work_pure _
      | some externalInr =>
        dsimp only
        split
        · exact work_pure _
        · exact crossCurrencyMatch_stage ⟨List.mem_map_of_mem hi, List.mem_map_of_mem he, hrej⟩
  · exact work_pure _

theorem crossCurrencyTurn_workable {s : Session} (he : external ∈ externals)
    (h : Workable (ids internals ++ ids externals) [] s.supply s.view) :
    (crossCurrencyTurn config internals rejected st external).wp
      (fun _ s' => Workable (ids internals ++ ids externals) [] s'.supply s'.view)
      (fun _ _ => True) s := by
  unfold crossCurrencyTurn
  split
  · exact h
  · rename_i internal hpeers
    obtain ⟨hi, -⟩ := mem_crossCurrencyPeers (hpeers ▸ List.mem_singleton_self internal)
    refine wp_bind.mpr (legInr_wp (fun internalInr => ?_) fun _ => trivial)
    cases internalInr with
    | none => exact h
    | some internalInr =>
      refine wp_bind.mpr (legInr_wp (fun externalInr => ?_) fun _ => trivial)
      cases externalInr with
      | none => exact h
      | some externalInr =>
        dsimp only
        split
        · exact h
        · exact crossCurrencyMatch_workable (List.mem_append_left _ (List.mem_map_of_mem hi))
            (List.mem_append_right _ (List.mem_map_of_mem he)) h
  · exact h

/-- The stage keeps to its pools and to the rejections. -/
theorem crossCurrencyRun_onPools :
    OnPools (·.AutoPair) internals externals (crossCurrencyRun config internals externals) :=
  Or.inr ⟨_, rfl, fun _ => Work.bind (Work.foldlM _ _ fun _ _ he => crossCurrencyTurn_stage he)
    fun _ => work_pure _⟩

theorem crossCurrencyRun_workable {s : Session}
    (h : Workable (ids internals ++ ids externals) [] s.supply s.view) :
    (crossCurrencyRun config internals externals).wp
      (fun _ s' => Workable (ids internals ++ ids externals) [] s'.supply s'.view)
      (fun _ _ => True) s := by
  rw [crossCurrencyRun, wp_levelOn]
  refine wp_bind.mpr (wp_foldlM (I := fun _ s =>
    Workable (ids internals ++ ids externals) [] s.supply s.view) externals ?_ _ s h)
  exact fun external he st s hs => crossCurrencyTurn_workable he hs

end

end Recon
