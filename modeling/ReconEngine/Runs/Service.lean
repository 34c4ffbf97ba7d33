import ReconEngine.Audit.Trail

/-!
# Reconciliation runs

`RunService` starts runs, activates queued ones, executes them and writes their outcome, each
transition with an entry on the audit trail; `BacklogService.run_queued` picks up a queued run. A
bank has at most one RUNNING run and an idempotency key at most one run.

What a run does between its first reading and its outcome is a parameter (`RunWork`), split where
the source splits it: only the middle part is guarded by the handler that rolls everything back.
An object that a session holds is passed on as a value (`HeldRun`): the session that has started a run
executes it with the row that it inserted, whatever others have made of the row since.

**What it does not establish.** This module has the programs; their laws are `Runs.Transitions` (one
transition, one entry), `Runs.Endings` (outcomes), `Runs.Failures` and `Runs.Execution`, which puts
the modelled work in the place of the parameter. How long a run takes is nobody's matter but that of
`_reap_stale`, which looks at the clock of its caller.
-/

set_option autoImplicit false

namespace Recon

open Store.Prog hiding pure bind

def RunStatus.text : RunStatus → String
  | .pending => "PENDING"
  | .running => "RUNNING"
  | .completed => "COMPLETED"
  | .failed => "FAILED"

def RunMode.text : RunMode → String
  | .fast => "FAST"
  | .full => "FULL"

/-- The class name of an error. -/
def ReconError.typeName : ReconError → String
  | .claimConflict _ => "ClaimConflictError"
  | .transactionNotFound _ => "TransactionNotFoundError"
  | .invalidPair _ => "InvalidPairError"
  | .transactionUnavailable _ => "TransactionUnavailableError"
  | .matchNotUnmatchable _ => "MatchNotUnmatchableError"
  | .matchNotFound _ => "MatchNotFoundError"
  | .matchNotPending _ => "MatchNotPendingError"
  | .reviewState _ => "ReviewStateError"
  | .notAutoResolvable _ => "NotAutoResolvableError"
  | .setBasedExact .. => "SetBasedExactError"
  | .canonicalisation _ => "CanonicalisationError"
  | .valueError _ => "ValueError"
  | .arithmetic signal => signal
  | .indexError _ => "IndexError"
  | .keyError _ => "KeyError"
  | .integrity _ => "IntegrityError"
  | .lookup _ => "LookupError"
  | .runState _ => "RunStateError"
  | .runAlreadyActive _ => "RunAlreadyActiveError"
  | .idempotencyConflict => "IdempotencyConflictError"
  | .http .. => "HTTPException"
  | .environment name => name

def idempotencyConstraint : String := "uq_reconciliation_runs_idempotency_key"
def oneRunningIndex : String := "ux_reconciliation_runs_one_running_per_bank"

structure StartRequest where
  bankCode : String
  idempotencyKey : String
  requestedBy : String
  mode : RunMode := .full
  dateFrom : Option Date := none
  dateTo : Option Date := none
  defer : Bool := false
deriving DecidableEq, Repr

structure StartResult where
  run : ReconciliationRun
  created : Bool
deriving DecidableEq, Repr

/-- A run as the session of its worker holds it. -/
structure HeldRun where
  run : ReconciliationRun
  /-- The session has inserted the row itself, and never loaded the columns it left out. -/
  inserted : Bool
deriving DecidableEq, Repr

def HeldRun.id (held : HeldRun) : Id := held.run.id

/-- The summary that a flush writes: none where the session has loaded the same one before. An
attribute that was never loaded is written whatever it is set to. -/
def HeldRun.summary (held : HeldRun) (errorSummary : Option String) : Option (Option String) :=
  if !held.inserted && errorSummary = held.run.errorSummary then none else some errorSummary

/-- The run that a request asks for. -/
def StartRequest.run (q : StartRequest) (id : Id) (now : Instant) : ReconciliationRun where
  id := id
  idempotencyKey := q.idempotencyKey
  bankCode := q.bankCode
  status := if q.defer then .pending else .running
  mode := q.mode
  dateFrom := q.dateFrom
  dateTo := q.dateTo
  requestedBy := q.requestedBy
  startedAt := if q.defer then none else some now

def StartRequest.rangeOrdered (q : StartRequest) : Bool :=
  match q.dateFrom, q.dateTo with
  | some a, some b => a ≤ b
  | _, _ => true

namespace Db

def run? (d : Db) (id : Id) : Option ReconciliationRun := d.runs.find? (·.id = id)

/-- `_by_key`. -/
def runByKey (d : Db) (key : String) : Option ReconciliationRun :=
  d.runs.find? (·.idempotencyKey = key)

/-- The bank's run in progress holds the slot of the bank. -/
def slotTaken (d : Db) (bankCode : String) : Bool :=
  d.runs.any fun r => r.bankCode = bankCode ∧ r.status = .running

/-- The RUNNING runs of the bank that started before `cutoff`. -/
def staleRuns (d : Db) (bankCode : String) (cutoff : Instant) : List ReconciliationRun :=
  d.runs.filter fun r => r.bankCode = bankCode ∧ r.status = .running ∧
    ∃ startedAt ∈ r.startedAt, startedAt < cutoff

end Db

structure RunService where
  logger : AuditLogger
  staleRunAfter : Int

/-- `_replay`. -/
def replayRun (existing : ReconciliationRun) (q : StartRequest) : Prog StartResult :=
  if (existing.bankCode, existing.mode, existing.dateFrom, existing.dateTo) ≠
      (q.bankCode, q.mode, q.dateFrom, q.dateTo) then
    .fail .idempotencyConflict
  else return ⟨existing, false⟩

/-! ## The audit entry of a transition -/

def RunMetrics.value (m : RunMetrics) : PyValue :=
  .dict (m.counts.map (fun (name, n) => (.str name, .int n)) ++
    [(.str "mode", .str m.mode.text),
      (.str "date_from", (m.dateFrom.map .int).getD .none),
      (.str "date_to", (m.dateTo.map .int).getD .none)] ++
    (m.bankConfig.map fun (version, sha256) => (.str "bank_config",
      .dict [(.str "version", .str version), (.str "sha256", .str sha256)])).toList ++
    [(.str "alerts_raised", .int m.alertsRaised)])

/-- The event that `_audit_state` appends. -/
def runStateChange (run : ReconciliationRun) (before after rationale : String) (at' : Instant)
    (metrics : Option RunMetrics) : AuditEvent where
  chainId := runsChain
  actorType := if before = "NONE" then "USER" else "SYSTEM"
  actorId := if before = "NONE" then "api-key:" ++ run.requestedBy else "run-service"
  actionType := "RUN_STATE_CHANGE"
  affectedRecords :=
    .dict [(.str "run_id", .str (idText run.id)), (.str "bank_code", .str run.bankCode)]
  rationale := rationale
  occurredAt := { utc := at' }
  beforeState := .dict [(.str "status", .str before)]
  afterState := .dict ([(.str "status", .str after), (.str "mode", .str run.mode.text)] ++
    (metrics.map fun m => (.str "metrics", m.value)).toList)

namespace RunService

variable (svc : RunService)

/-- `_audit_state`. -/
def auditState (run : ReconciliationRun) (before after rationale : String) (at' : Instant)
    (metrics : Option RunMetrics := none) : Prog Unit := do
  let _ ← svc.logger.append (runStateChange run before after rationale at' metrics)

/-! ## Starting and activating -/

def reapedColumns (now : Instant) : RunColumns where
  status := some .failed
  completedAt := some now
  errorSummary := some (some "reaped: exceeded the stale-run window")

/-- One row of the bulk update of `_reap_stale`: the row is locked and then looked at again. -/
def reapOne (bankCode : String) (now : Instant) (run : ReconciliationRun) : Prog Unit := do
  lockRow (.run run.id)
  let d ← tables
  if ((d.staleRuns bankCode (now - svc.staleRunAfter)).map (·.id)).contains run.id then
    put (.updateRun run.id (reapedColumns now))
  else pure ()

/-- `_reap_stale`. -/
def reapStale (bankCode : String) (now : Instant) : Prog Unit := do
  let d ← tables
  (d.staleRuns bankCode (now - svc.staleRunAfter)).foldlM
    (fun _ run => svc.reapOne bankCode now run) ()

/-- The unique index on the bank of a RUNNING run. -/
def takeSlot (bankCode : String) : Prog Unit := do
  lockRow (.runSlot bankCode)
  let d ← tables
  require (!d.slotTaken bankCode) (.integrity oneRunningIndex)

/-- The same for a row about to be inserted. -/
def indexRun (run : ReconciliationRun) : Prog Unit :=
  if run.status = .running then takeSlot run.bankCode else return

/-- Insert a run under both unique constraints. -/
def insertRun (run : ReconciliationRun) : Prog Unit := do
  lockRow (.runKey run.idempotencyKey)
  let d ← tables
  require (d.runByKey run.idempotencyKey).isNone (.integrity idempotencyConstraint)
  indexRun run
  put (.insertRun run)

/-- What `start` makes of a failed insert: the run of a request that came first with the same key,
or an error. -/
def startConflict (q : StartRequest) : ReconError → Prog (Option StartResult)
  | .integrity name =>
    if name = idempotencyConstraint then do
      let d ← tables
      match d.runByKey q.idempotencyKey with
      | some winner => do
        let result ← replayRun winner q
        return some result
      | none => .fail (.integrity name)
    else if name = oneRunningIndex then .fail (.runAlreadyActive q.bankCode)
    else .fail (.integrity name)
  | e => .fail e

def start (q : StartRequest) (now : Instant) : Prog StartResult := do
  require q.rangeOrdered (.valueError "date_from must not be after date_to")
  let d ← tables
  match d.runByKey q.idempotencyKey with
  | some existing => replayRun existing q
  | none => do
    svc.reapStale q.bankCode now
    let id ← newId
    let run := q.run id now
    let won ← attempt (do
      insertRun run
      return none) (startConflict q)
    match won with
    | some result => return result
    | none => do
      svc.auditState run "NONE" run.status.text ("requested by " ++ q.requestedBy ++
        if q.defer then " (queued)" else "") now
      return ⟨run, true⟩

/-- `activate`, with `false` where it raises `RunAlreadyActiveError`: the caller decides what
becomes of the transaction. -/
def tryActivate (id : Id) (now : Instant) : Prog Bool := do
  lockRow (.run id)
  let d ← tables
  match d.run? id with
  | none => .fail (.runState "run is not PENDING")
  | some run => do
    require (run.status = .pending) (.runState "run is not PENDING")
    svc.reapStale run.bankCode now
    let activated ← attempt (do
      takeSlot run.bankCode
      put (.updateRun id { status := some .running, startedAt := some now })
      return true) fun
        | .integrity name => if name = oneRunningIndex then return false else .fail (.integrity name)
        | e => .fail e
    if activated then do
      svc.auditState run "PENDING" "RUNNING" "queued run started" now
      return true
    else return false

def busyColumns (now : Instant) : RunColumns where
  status := some .failed
  completedAt := some now
  errorSummary := some (some "another run for this bank was active; queue it again")

/-- Give up a queued run whose bank is busy. -/
def failBusy (id : Id) (now : Instant) : Prog Unit := do
  let d ← tables
  match d.run? id with
  | some run =>
    if run.status = .pending then do
      put (.updateRun id (busyColumns now))
      commitNow
    else return
  | none => return

/-- The first half of `BacklogService.run_queued`: `true` when the run has been activated, and is
executed next. -/
def startQueued (id : Id) (now failedAt : Instant) : Prog Bool := do
  if ← svc.tryActivate id now then
    commitNow
    return true
  else
    failBusy id failedAt
    return false

/-! ## Executing -/

def finishedColumns (held : Option HeldRun) (status : RunStatus) (metrics : Option RunMetrics)
    (errorSummary : Option String) (now : Instant) : RunColumns where
  status := some status
  completedAt := some now
  metrics := some metrics
  errorSummary := match held with
    | some held => held.summary errorSummary
    | none => some errorSummary

/-- `_finish`. The session answers with the run it holds; after a rollback it holds none, and reads
the row again. -/
def finish (id : Id) (held : Option HeldRun) (status : RunStatus)
    (metrics : Option RunMetrics) (errorSummary : Option String) (now : Instant) : Prog Unit := do
  let d ← tables
  match d.run? id with
  | none => .fail (.runState "run disappeared")
  | some run => do
    lockRow (.run id)
    put (.updateRun id (finishedColumns held status metrics errorSummary now))
    svc.auditState run ((held.map (·.run.status)).getD run.status).text status.text
      (errorSummary.getD "run completed") now metrics

end RunService

/-- The write is neither about a run nor about the chain of the runs. -/
def RowWrite.LeavesRuns : RowWrite → Prop
  | .insertRun _ | .updateRun .. => False
  | .insertAudit row => row.chainId ≠ runsChain
  | _ => True

/-- What `execute` does for a run it has read. None of it writes to the runs or their chain. -/
structure RunWork where
  Prepared : Type
  Settled : Type
  /-- Before the guarded region: settings, clock, configuration. -/
  prepare : ReconciliationRun → Prog Prepared
  /-- The guarded region: matching, classification, escalation. -/
  settle : ReconciliationRun → Prepared → Prog Settled
  /-- After it: the metrics and the alerts they raise. -/
  measure : ReconciliationRun → Prepared → Settled → Prog RunMetrics
  prepare_work : ∀ run, (prepare run).Work RowWrite.LeavesRuns
  settle_work : ∀ run prepared, (settle run prepared).Work RowWrite.LeavesRuns
  measure_work : ∀ run prepared settled, (measure run prepared settled).Work RowWrite.LeavesRuns

namespace RunService

variable (svc : RunService)

/-- `execute` once it has the run. -/
def executeRead (work : RunWork) (held : HeldRun) (now : Instant) : Prog Unit := do
  let prepared ← work.prepare held.run
  let settled ← attempt (some <$> work.settle held.run prepared) fun e => do
    rollbackNow
    svc.finish held.id none .failed none (some e.typeName) now
    return none
  match settled with
  | none => return
  | some settled => do
    let metrics ← work.measure held.run prepared settled
    svc.finish held.id (some held) .completed (some metrics) none now

/-- The reading that `execute` starts with. A session that has started the run itself still has the
row that it inserted, also after its commit, and does not ask the store again. -/
def readRunning (id : Id) : Option ReconciliationRun → Prog HeldRun
  | some cached => do
    require (cached.status = .running) (.runState "run is not RUNNING")
    return ⟨cached, true⟩
  | none => do
    let d ← tablesMarking fun _ => [.run id]
    match d.run? id with
    | none => .fail (.runState "run is not RUNNING")
    | some run => do
      require (run.status = .running) (.runState "run is not RUNNING")
      return ⟨run, false⟩

/-- `execute`, in a session that does not have the run. -/
def execute (work : RunWork) (id : Id) (now : Instant) : Prog Unit := do
  let held ← readRunning id none
  svc.executeRead work held now

end RunService

end Recon
