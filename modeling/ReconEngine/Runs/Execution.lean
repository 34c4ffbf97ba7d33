import ReconEngine.Config.Store
import ReconEngine.Histories.OpenLeftovers
import ReconEngine.Runs.Failures

/-!
# What a run executes

The life cycle of runs takes the work of a run as a parameter (`RunWork`) and asks of it that it
writes neither runs nor entries on their chain. Here is the work that `execute` really does:
bringing the table of bank configurations up to date, the matching stages, the MATCH entry of the
run, classification, auto-resolution and escalation, and the metrics with the alerts they raise.
Each part appends to a chain of its own (`config`, `matching`, `exceptions`), so that the whole is a
`RunWork`, and what is proved of the life cycle holds of it.

**The law** (`executed_run_concludes`): a RUNNING run that is executed so ends COMPLETED, or FAILED
with nothing but its row and its entry changed, unless raising the alerts fails. Reading the
settings and the metrics raises nothing by itself.

**What it does not establish.** The settings are read before the work begins and stay what they are
for its length; what happens when they are swapped meanwhile is the matter of `Runs/Configuration`.
Alerts are a parameter that may raise.
-/

set_option autoImplicit false

namespace Recon

open Store.Prog hiding pure bind

/-! ## The parts of the work -/

/-- What a run is executed with. -/
structure RunSurroundings where
  logger : AuditLogger
  loaded : List LoadedBankConfig
  orchestrator : ReconciliationRun → Orchestrator
  classifier : ExceptionClassifier
  now : Instant
  today : Date
  staleAfterDays : Option Int
  /-- `evaluate_run`: the number of alerts that the metrics raise. -/
  alerts : RunMetrics → Prog Int
  alerts_work : ∀ metrics, (alerts metrics).Work RowWrite.LeavesRuns

/-- What the guarded region leaves for the metrics. -/
structure RunOutcome where
  matching : OrchestratorOutcome
  classified : ClassifierOutcome
  escalation : EscalationOutcome

/-- How many of the results have the type; a type that none has is not named. -/
def countByType (results : List MatchResult) (t : MatchType) : Option (PyKey × PyValue) :=
  let count := results.countP (·.matchType = t)
  if count = 0 then none else some (.str t.text, .int count)

/-- The entry that `_audit_matches` appends for the results of the run. -/
def matchesEvent (sha256 : Sha256) (run : ReconciliationRun) (results : List MatchResult)
    (outcome : OrchestratorOutcome) (now : Instant) : AuditEvent where
  chainId := matchingChain
  actorType := "SYSTEM"
  actorId := "run-service"
  actionType := "MATCH"
  affectedRecords :=
    .dict [(.str "run_id", .str (idText run.id)), (.str "bank_code", .str run.bankCode)]
  rationale := "run " ++ idText run.id ++ " produced " ++ toString results.length ++
    " match results (" ++ run.mode.text ++ ")"
  occurredAt := { utc := now }
  afterState := .dict
    [(.str "match_result_count", .int results.length),
      (.str "by_match_type", .dict (([.exact, .fuzzy, .rule, .split, .netted, .crossCurrency,
        .manual] : List MatchType).filterMap (countByType results))),
      (.str "match_result_ids_sha256", .str (sha256.hexdigest
        ("\n".intercalate (((results.map (·.id)).insertionSort (· ≤ ·)).map idText)).toUTF8)),
      (.str "externals_matched", .int outcome.externalsMatched),
      (.str "pending_review", .int outcome.totalPendingReviewCount)]

/-- The counts of `_metrics`. -/
def RunOutcome.counts (out : RunOutcome) : List (String × Int) :=
  let m := out.matching
  [("exact_matched", m.exact.matchedCount), ("fuzzy_auto_matched", m.fuzzy.autoMatchedCount),
    ("pending_review", m.totalPendingReviewCount),
    ("rule_matched", (m.rule.map (·.autoMatchedCount)).getD 0),
    ("cross_currency_matched", (m.crossCurrency.map (·.matchedCount)).getD 0),
    ("cross_currency_out_of_tolerance", (m.crossCurrency.map (·.outOfToleranceCount)).getD 0),
    ("split_groups", (m.group.map (·.splitGroups)).getD 0),
    ("netted_groups", (m.group.map (·.nettedGroups)).getD 0),
    ("group_ambiguous", (m.group.map (·.ambiguousCount)).getD 0),
    ("group_too_complex", (m.group.map (·.tooComplexCount)).getD 0),
    ("group_missing_fx", (m.group.map (·.missingFxCount)).getD 0),
    ("externals_matched", m.externalsMatched), ("internal_pool", m.internalPoolSizeBeforeExact),
    ("external_pool", m.externalPoolSizeBeforeExact),
    ("exceptions_created", out.classified.createdCount),
    ("exceptions_auto_resolved", out.escalation.autoResolve.resolvedCount),
    ("exceptions_auto_resolve_escalated", out.escalation.autoResolve.escalatedCount),
    ("exceptions_queued", out.escalation.queuedCount),
    ("sla_escalations", out.escalation.sla.escalatedCount)]

namespace RunSurroundings

variable (e : RunSurroundings)

/-- `_audit_matches`. -/
def auditMatches (run : ReconciliationRun) (outcome : OrchestratorOutcome) : Prog Unit := do
  let d ← tables
  let results := d.results.filter (·.runId = .run run.id)
  let _ ← e.logger.append (matchesEvent e.logger.sha256 run results outcome e.now)

/-- The guarded region of `execute`. -/
def settle (run : ReconciliationRun) : Prog RunOutcome := do
  let _ ← syncBankConfigurations e.logger e.loaded "system:run-service" e.now
  let matching ← (e.orchestrator run).execute run.bankCode
  e.auditMatches run matching
  let classified ← e.classifier.classifyRun run.bankCode run.id e.now
    (e.staleAfterDays.map fun _ => e.today) e.staleAfterDays ⟨run.dateFrom, run.dateTo⟩
  let escalation ← escalate e.logger run.bankCode (some run.id) e.now
  return ⟨matching, classified, escalation⟩

/-- The version and the hash of the configuration that is live for the bank. -/
def bankConfig (run : ReconciliationRun) : Option (String × String) :=
  (e.loaded.find? (·.config.bankCode = run.bankCode)).map fun item =>
    (item.config.configVersion, item.sha256)

/-- The metrics, and the alerts they raise. -/
def measure (run : ReconciliationRun) (out : RunOutcome) : Prog RunMetrics := do
  let metrics : RunMetrics :=
    ⟨out.counts, run.mode, run.dateFrom, run.dateTo, e.bankConfig run, 0⟩
  let raised ← e.alerts metrics
  return { metrics with alertsRaised := raised }

end RunSurroundings

/-! ## None of it writes to the runs or their chain -/

/-- An entry on another chain leaves that of the runs. -/
theorem leavesRuns_of_chain {row : AuditLog} {chainId : String} (h : row.chainId = chainId)
    (hne : chainId ≠ runsChain) : (RowWrite.insertAudit row).LeavesRuns :=
  fun hrow => hne (h.symm.trans hrow)

/-- Levels write neither runs nor entries. -/
theorem ofLevel_leavesRuns {w : RowWrite} (h : w.OfLevel) : w.LeavesRuns := by
  cases w with
  | insertAudit row => exact leavesRuns_of_chain h (by decide)
  | insertRun run => exact h.elim
  | updateRun id columns => exact h.elim
  | _ => trivial

/-- Exceptions have a chain of their own. -/
theorem ofExceptions_leavesRuns {w : RowWrite} (h : w.OfExceptions) : w.LeavesRuns := by
  cases w with
  | insertAudit row =>
    rcases h with hrow | hrow
    · exact leavesRuns_of_chain hrow (by decide)
    · exact leavesRuns_of_chain hrow (by decide)
  | insertRun run => exact h.elim
  | updateRun id columns => exact h.elim
  | _ => trivial

/-- What each level writes, a whole run of the stages writes. -/
theorem execute_ofLevel (o : Orchestrator) (bankCode : String) :
    (o.execute bankCode).Work RowWrite.OfLevel := by
  have hlevel : ∀ l : Level, (l.program o bankCode).Work RowWrite.OfLevel := levelProgram_ofLevel
  have hcount : ∀ source, (countUnmatched bankCode source o.range).Work RowWrite.OfLevel :=
    fun source => Work.bind work_tables fun _ => work_pure _
  refine Work.bind (hcount _) fun _ => Work.bind (hcount _) fun _ =>
    Work.bind (hlevel .setBased).left fun _ => Work.bind (hlevel .exact).left fun _ =>
    Work.bind (hlevel .group).left fun _ => Work.bind (work_pools _ _) fun found => ?_
  exact Work.bind (fuzzyStage_ofLevel _ _) fun _ => Work.bind (hlevel .rule).left fun _ =>
    Work.bind (hcount _) fun _ => work_pure _

namespace RunSurroundings

variable (e : RunSurroundings)

theorem sync_leavesRuns :
    (syncBankConfigurations e.logger e.loaded "system:run-service" e.now).Work
      RowWrite.LeavesRuns :=
  Work.foldlM _ _ fun _ item _ => (syncBank_work item).weaken fun w hw => by
    cases w with
    | insertAudit row => exact leavesRuns_of_chain hw (by decide)
    | insertRun run => exact hw.elim
    | updateRun id columns => exact hw.elim
    | _ => trivial

theorem auditMatches_leavesRuns (run : ReconciliationRun) (outcome : OrchestratorOutcome) :
    (e.auditMatches run outcome).Work RowWrite.LeavesRuns := by
  refine Work.bind work_tables fun d => Work.bind ?_ fun _ => work_pure _
  refine (e.logger.append_chain_work _).weaken ?_
  rintro _ ⟨row, rfl, hrow⟩
  have hmatching : row.chainId = matchingChain := hrow
  exact leavesRuns_of_chain hmatching (by decide)

theorem settle_leavesRuns (run : ReconciliationRun) :
    (e.settle run).Work RowWrite.LeavesRuns :=
  Work.bind e.sync_leavesRuns fun _ =>
    Work.bind ((execute_ofLevel _ _).weaken fun _ => ofLevel_leavesRuns) fun _ =>
    Work.bind (e.auditMatches_leavesRuns run _) fun _ =>
    Work.bind ((classifyRun_work _ _ _ _ _ _ _).weaken fun _ h =>
      ofExceptions_leavesRuns (ofCreation_ofExceptions h)) fun _ =>
    Work.bind ((escalate_work _ _ _ _).weaken fun _ => ofExceptions_leavesRuns) fun _ =>
    work_pure _

/-- What `execute` does with a run. -/
def work : RunWork where
  Prepared := Unit
  Settled := RunOutcome
  prepare _ := return
  settle run _ := e.settle run
  measure run _ out := e.measure run out
  prepare_work _ := work_pure _
  settle_work run _ := e.settle_leavesRuns run
  measure_work _ _ _ := Work.bind (e.alerts_work _) fun _ => work_pure _

/-! ## How it ends -/

/-- Raising the alerts raises no error. -/
def AlertsSucceed : Prop := ∀ metrics (s : Session),
  (e.alerts metrics).wp (fun _ _ => True) (fun _ _ => False) s

/-- Where alerts do not fail, an error can come from the guarded part only. -/
theorem guarded (h : e.AlertsSucceed) (run : ReconciliationRun) (s : Session) :
    e.work.Guarded run s := by
  show (e.settle run).wp (fun out s₂ => (e.measure run out).wp (fun _ _ => True)
    (fun _ _ => False) s₂) (fun _ _ => True) s
  refine (e.settle_leavesRuns run).wp_frame s |>.mono ?_ fun _ _ _ => trivial
  intro out s₂ _
  unfold measure
  rw [bind_eq, wp_bind]
  exact (h _ s₂).mono (fun _ _ _ => trivial) fun _ _ h => h

/-- A RUNNING run ends COMPLETED or fails as a whole, whatever its stages come upon. -/
theorem executed_run_concludes (svc : RunService) (h : e.AlertsSucceed) (now : Instant)
    (s : Session) (hlog : s.log = []) (held : HeldRun)
    (hrun : s.committed.run? held.id = some held.run) :
    s.committed.Concluded (request (svc.executeRead e.work held now) s).2.committed held.id := by
  have hview : s.view = s.committed := by
    unfold Store.Session.view
    rw [hlog]
    rfl
  have hspec : (svc.executeRead e.work held now).wp
      (fun _ s' => s.view.Concluded s'.view held.id) (fun _ _ => False) s :=
    executeRead_concluded e.work now hlog (hview.symm ▸ hrun) (e.guarded h held.run s)
  rcases hspec.request with ⟨_, s', hs', hrequest⟩ | ⟨_, _, hfalse, -⟩
  · rw [hrequest, ← hview]
    exact hs'
  · exact hfalse.elim

end RunSurroundings

/-! A day of all stages, executed by the worker of a run that has just been started. -/

def stagedSurroundings : RunSurroundings where
  logger := ⟨constantDigests⟩
  loaded := []
  orchestrator run :=
    { stagedRun with run := run.id, mode := run.mode, range := ⟨run.dateFrom, run.dateTo⟩ }
  classifier := plainClassifier
  now := 10
  today := 739000
  staleAfterDays := none
  alerts _ := return 0
  alerts_work _ := work_pure _

def stagedHistory : RunSystem :=
  (⟨stagedDay.committed, stagedDay.supply, [], []⟩ : RunSystem).run RunSystem.halfHourService
    [.start (RunSystem.dailyRequest "monday") 0, .begin 9, .finish 9 stagedSurroundings.work 11]

example : ((stagedHistory.db.run? 9).map fun run => (run.status,
    run.metrics.bind fun m => m.counts.lookup "externals_matched")) = some (.completed, some 3) := by
  decide +kernel

end Recon
