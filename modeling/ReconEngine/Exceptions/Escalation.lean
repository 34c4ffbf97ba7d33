import ReconEngine.Exceptions.Resolver

/-!
# Escalation

After exceptions are created, `EscalationManager.process` auto-resolves those of tier 1, gives every
unassigned open exception the queue of its tier, and escalates those whose deadline has passed. An
exception breaches its deadline once.

**The law** (`escalate_work`): everything the three write is a settling, an assignment or a breach,
each with its event, which is what `Exceptions.LifeCycle` and `Histories.Operations` start from.

**What it does not establish.** That a scan takes place at all: somebody has to call it, at the end
of a run or through the API.
-/

set_option autoImplicit false

namespace Recon

open Store.Prog hiding pure bind

/-- OPEN, IN_REVIEW, ESCALATED or REOPENED. -/
def ExceptionStatus.isOpen : ExceptionStatus → Bool
  | .open | .inReview | .escalated | .reopened => true
  | .resolved | .writtenOff => false

/-! ## Queues -/

/-- The open exceptions of the bank and tier that nobody is assigned to. -/
def Db.unassigned (d : Db) (bankCode : String) (tier : Nat) : List Id :=
  (d.exceptions.filter fun e => e.bankCode = bankCode ∧ e.status.isOpen ∧ e.assignedTier = tier ∧
    e.assignedTo = none).map (·.id)

/-- The bulk update of the rows. -/
def assignAll (queue : String) : List Id → Prog Unit
  | [] => return
  | id :: ids => do
    lockRow (.exception id)
    put (.updateException id { assignedTo := some (some queue) })
    assignAll queue ids

def queuedEvent (tier : Nat) (now : Instant) (id : Id) : ExceptionEvent where
  exceptionId := id
  eventType := .assigned
  fromTier := some tier
  toTier := tier
  actor := "system:escalation-manager"
  occurredAt := now

/-- `_assign_queues` for one tier. -/
def assignQueue (bankCode : String) (now : Instant) (tier : Nat) (queue : String) : Prog Nat := do
  let d ← tables
  assignAll queue (d.unassigned bankCode tier)
  ExceptionService.insertEvents ((d.unassigned bankCode tier).map (queuedEvent tier now))
  return (d.unassigned bankCode tier).length

/-- `_assign_queues`. -/
def assignQueues (bankCode : String) (now : Instant) : List (Nat × String) → Prog Nat
  | [] => return 0
  | (tier, queue) :: rest => do
    let n ← assignQueue bankCode now tier queue
    let m ← assignQueues bankCode now rest
    return n + m

/-! ## Deadlines -/

structure SlaScanOutcome where
  escalatedCount : Nat := 0
  breachedAtTopTierCount : Nat := 0
deriving DecidableEq, Repr

/-- The open exceptions past their deadline that have not been stamped, by deadline. -/
def Db.breaching (d : Db) (now : Instant) : List ReconException :=
  (d.exceptions.filter fun e => e.status.isOpen ∧ e.slaBreachedAt = none ∧
    e.slaDeadline < now).insertionSort
      fun a b => a.slaDeadline < b.slaDeadline ∨ a.slaDeadline = b.slaDeadline ∧ a.id ≤ b.id

/-- What a breach changes: at the highest tier the stamp alone. -/
def breachColumns (e : ReconException) (now : Instant) : ExceptionColumns :=
  let tier := tierAfterSlaCheck e.assignedTier e.slaDeadline now
  if tier = e.assignedTier then { slaBreachedAt := some now }
  else
    { slaBreachedAt := some now
      assignedTier := some tier
      status := some .escalated
      assignedTo := if isQueue e.assignedTo then some (queueForTier tier) else none }

def breachEvent (e : ReconException) (now : Instant) : ExceptionEvent :=
  let tier := tierAfterSlaCheck e.assignedTier e.slaDeadline now
  { exceptionId := e.id
    eventType := if tier = e.assignedTier then .slaBreached else .escalated
    fromTier := some e.assignedTier
    toTier := tier
    actor := "system:sla-scanner"
    occurredAt := now }

def breachEntry (e : ReconException) (now : Instant) : AuditEvent :=
  let after := (breachColumns e now).set e
  exceptionEntry e "SYSTEM" "sla-scanner" "ESCALATE" []
    (statusAndTier e.status e.assignedTier) (statusAndTier after.status after.assignedTier)
    "SLA deadline passed" now

def breach (logger : AuditLogger) (now : Instant) (e : ReconException) : Prog Unit := do
  put (.updateException e.id (breachColumns e now))
  put (.insertEvent (breachEvent e now))
  let _ ← logger.append (breachEntry e now)

/-- One exception of the scan: whether it has gone up a tier. -/
def breachOne (logger : AuditLogger) (now : Instant) (e : ReconException) : Prog Bool := do
  breach logger now e
  return tierAfterSlaCheck e.assignedTier e.slaDeadline now ≠ e.assignedTier

/-- `SlaScanner.scan`. -/
def slaScan (logger : AuditLogger) (now : Instant) : Prog SlaScanOutcome := do
  let d ← tables
  lockAll (d.breaching now)
  let (escalated, topTier) ← eachRow (breachOne logger now) (d.breaching now)
  return ⟨escalated, topTier⟩

/-! ## The three together -/

structure EscalationOutcome where
  autoResolve : AutoResolveOutcome
  queuedCount : Nat
  sla : SlaScanOutcome
deriving DecidableEq, Repr

/-- `EscalationManager.process`. -/
def escalate (logger : AuditLogger) (bankCode : String) (runId : Option Id) (now : Instant) :
    Prog EscalationOutcome := do
  let auto ← autoResolverRun logger bankCode runId now
  let queued ← assignQueues bankCode now queueByTier
  let sla ← slaScan logger now
  return ⟨auto, queued, sla⟩

/-! ## What is written -/

theorem assignAll_work (queue : String) : ∀ ids, (assignAll queue ids).Work RowWrite.OfExceptions
  | [] => work_pure _
  | _ :: ids => Work.bind (work_lockRow _) fun _ => Work.bind (work_put.mpr trivial) fun _ =>
      assignAll_work queue ids

theorem assignQueues_work (bankCode : String) (now : Instant) :
    ∀ queues, (assignQueues bankCode now queues).Work RowWrite.OfExceptions
  | [] => work_pure _
  | _ :: rest => Work.bind (Work.bind work_tables fun _ => Work.bind (assignAll_work _ _) fun _ =>
      Work.bind (ExceptionService.insertEvents_work _) fun _ => work_pure _) fun _ =>
      Work.bind (assignQueues_work bankCode now rest) fun _ => work_pure _

/-- A breach writes the exception, its event and its entry. -/
theorem breachOne_work (logger : AuditLogger) (now : Instant) (e : ReconException) :
    (breachOne logger now e).Work RowWrite.OfExceptions :=
  Work.bind (Work.bind (work_put.mpr trivial) fun _ => Work.bind (work_put.mpr trivial) fun _ =>
    Work.bind (append_ofExceptions _ (.inl rfl)) fun _ => work_pure _) fun _ => work_pure _

theorem slaScan_work (logger : AuditLogger) (now : Instant) :
    (slaScan logger now).Work RowWrite.OfExceptions :=
  Work.bind work_tables fun _ => Work.bind (lockAll_work _) fun _ =>
    Work.bind (eachRow_work (breachOne_work logger now) _) fun _ => work_pure _

/-- Escalation writes nothing but exceptions, and the matches that auto-resolution settles. -/
theorem escalate_work (logger : AuditLogger) (bankCode : String) (runId : Option Id)
    (now : Instant) : (escalate logger bankCode runId now).Work RowWrite.OfExceptions :=
  Work.bind (autoResolverRun_work _ _ _ _) fun _ => Work.bind (assignQueues_work _ _ _) fun _ =>
    Work.bind (slaScan_work _ _) fun _ => work_pure _

end Recon
