import ReconEngine.Audit.Canonical
import Mathlib.Data.List.Sort

/-!
# Appending to the audit trail

`AuditLogger.append` takes the advisory lock of the chain, reads the chain's head, and writes one
entry that names the head's hash and stores its own. Nothing is written when the entry cannot be
serialised. The lock is held to the end of the surrounding transaction, so that two transactions
never read the same head; the unique constraint on chain and sequence number, which is only a
backstop for that, is left out.

**What it does not establish.** That two appends which overlap keep the chain: the lock is a
statement of the program here and nothing more. `Audit.Trail` puts any number of such programs over
one store.
-/

set_option autoImplicit false

namespace Recon

open Store.Prog hiding pure bind

/-- The SHA-256 of a byte string in hexadecimal. -/
structure Sha256 where
  hexdigest : ByteArray → String
  length_hexdigest : ∀ bytes, (hexdigest bytes).length = 64

/-- Any digest of the right length; enough where nothing depends on which one it is. -/
def constantDigests : Sha256 where
  hexdigest _ := "950cbcfe079e98007e2350f8fc13dad5aec9e0d6d24a8543daf0d969cdcc3728"
  length_hexdigest _ := rfl

structure AuditLogger where
  sha256 : Sha256

/-- The entries of a chain by sequence number. -/
def Db.chain (d : Db) (chainId : String) : List AuditLog :=
  (d.audit.filter (·.chainId = chainId)).insertionSort (·.sequenceNo ≤ ·.sequenceNo)

def actorTypes : List String := ["SYSTEM", "USER"]

/-- The chains in use. -/
def exceptionsChain : String := "exceptions"
def matchingChain : String := "matching"
def runsChain : String := "runs"
def configChain : String := "config"

/-- The columns of an entry that are hashed. -/
def AuditLog.fields (row : AuditLog) : AuditEntryFields where
  eventId := row.eventId
  chainId := row.chainId
  sequenceNo := row.sequenceNo
  occurredAt := { utc := row.occurredAt }
  actorType := row.actorType
  actorId := row.actorId
  actionType := row.actionType
  affectedRecords := row.affectedRecords
  beforeState := row.beforeState
  afterState := row.afterState
  rationale := row.rationale
  prevHash := row.prevHash
  serialisationVersion := row.serialisationVersion

/-- What a caller of `append` says about the event. -/
structure AuditEvent where
  chainId : String
  actorType : String
  actorId : String
  actionType : String
  affectedRecords : PyValue
  rationale : String
  occurredAt : Datetime
  beforeState : PyValue := .none
  afterState : PyValue := .none

/-- The entry for an event on top of `head`, not yet hashed. -/
def AuditEvent.entry (e : AuditEvent) (eventId : Id) (head : Option AuditLog) : AuditEntryFields where
  eventId := eventId
  chainId := e.chainId
  sequenceNo := match head with
    | some row => row.sequenceNo + 1
    | none => 1
  occurredAt := e.occurredAt
  actorType := e.actorType
  actorId := e.actorId
  actionType := e.actionType
  affectedRecords := e.affectedRecords
  beforeState := e.beforeState
  afterState := e.afterState
  rationale := e.rationale
  prevHash := head.map (·.currentHash)
  serialisationVersion := serialisationVersion

/-- The row that stores an entry. -/
def AuditEntryFields.row (f : AuditEntryFields) (currentHash : String) : AuditLog where
  eventId := f.eventId
  chainId := f.chainId
  sequenceNo := f.sequenceNo
  occurredAt := f.occurredAt.utc
  actorType := f.actorType
  actorId := f.actorId
  actionType := f.actionType
  affectedRecords := f.affectedRecords
  beforeState := f.beforeState
  afterState := f.afterState
  rationale := f.rationale
  prevHash := f.prevHash
  currentHash := currentHash
  serialisationVersion := f.serialisationVersion

def AuditLogger.append (logger : AuditLogger) (e : AuditEvent) : Prog AuditLog := do
  require (actorTypes.contains e.actorType)
    (.valueError ("actor_type must be one of ('SYSTEM', 'USER'), got " ++ pythonRepr e.actorType))
  require e.occurredAt.aware (.valueError "occurred_at must be timezone-aware")
  lockRow (.chain e.chainId)
  let d ← tables
  let eventId ← newId
  let fields := e.entry eventId (d.chain e.chainId).getLast?
  match computeHash logger.sha256.hexdigest fields with
  | .error err => .fail err
  | .ok hash => do
    let row := fields.row hash
    put (.insertAudit row)
    pure row

/-- Appending writes audit rows and nothing else. -/
theorem AuditLogger.append_work (logger : AuditLogger) (e : AuditEvent) :
    (logger.append e).Work fun w => ∃ row, w = RowWrite.insertAudit row := by
  refine Work.bind (work_require _ _) fun _ => Work.bind (work_require _ _) fun _ =>
    Work.bind (work_lockRow _) fun _ => Work.bind work_tables fun d =>
    Work.bind work_newId fun eventId => ?_
  dsimp only
  split
  · exact work_fail _
  · exact Work.bind (work_put.mpr ⟨_, rfl⟩) fun _ => work_pure _

/-- The same, with the chain of the row. -/
theorem AuditLogger.append_chain_work (logger : AuditLogger) (e : AuditEvent) :
    (logger.append e).Work fun w => ∃ row, w = RowWrite.insertAudit row ∧ row.chainId = e.chainId := by
  refine Work.bind (work_require _ _) fun _ => Work.bind (work_require _ _) fun _ =>
    Work.bind (work_lockRow _) fun _ => Work.bind work_tables fun d =>
    Work.bind work_newId fun eventId => ?_
  dsimp only
  split
  · exact work_fail _
  · exact Work.bind (work_put.mpr ⟨_, rfl, rfl⟩) fun _ => work_pure _

/-- A successful append adds one row to the audit table: the event on top of the chain's head,
with its hash. -/
theorem AuditLogger.append_spec (logger : AuditLogger) (e : AuditEvent) (s : Session) :
    (logger.append e).wp
      (fun row s' => e.occurredAt.aware = true ∧
        computeHash logger.sha256.hexdigest (e.entry s.supply (s.view.chain e.chainId).getLast?) =
          .ok row.currentHash ∧
        row = (e.entry s.supply (s.view.chain e.chainId).getLast?).row row.currentHash ∧
        s' = s.take.write (.insertAudit row))
      (fun _ s' => s'.view = s.view) s := by
  simp only [append, bind_eq, wp_bind, wp_require]
  split
  · split
    · rename_i haware
      simp only [wp_lockRow, wp_newId, wp_tables]
      cases hh : computeHash logger.sha256.hexdigest
          (e.entry s.supply (s.view.chain e.chainId).getLast?) with
      | error err => exact rfl
      | ok hash => exact ⟨haware, rfl, rfl, rfl⟩
    · trivial
  · trivial

/-- An event that can be hashed is appended. -/
theorem AuditLogger.append_exec {logger : AuditLogger} {e : AuditEvent} {s : Session}
    {hash : String} (hactor : actorTypes.contains e.actorType = true)
    (haware : e.occurredAt.aware = true)
    (hhash : computeHash logger.sha256.hexdigest
      (e.entry s.supply (s.view.chain e.chainId).getLast?) = .ok hash) :
    (logger.append e).exec s =
      (.ok ((e.entry s.supply (s.view.chain e.chainId).getLast?).row hash),
        s.take.write
          (RowWrite.insertAudit
            ((e.entry s.supply (s.view.chain e.chainId).getLast?).row hash))) := by
  have hrow : ∀ next : AuditEntryFields → Except ReconError String → Prog AuditLog,
      (do
        require (actorTypes.contains e.actorType)
          (.valueError ("actor_type must be one of ('SYSTEM', 'USER'), got " ++ pythonRepr e.actorType))
        require e.occurredAt.aware (.valueError "occurred_at must be timezone-aware")
        lockRow (.chain e.chainId)
        let d ← tables
        let eventId ← newId
        next (e.entry eventId (d.chain e.chainId).getLast?)
          (computeHash logger.sha256.hexdigest
            (e.entry eventId (d.chain e.chainId).getLast?)) : Prog AuditLog).exec s =
        (next (e.entry s.supply (s.view.chain e.chainId).getLast?)
          (computeHash logger.sha256.hexdigest
            (e.entry s.supply (s.view.chain e.chainId).getLast?))).exec s.take := by
    intro next
    rw [hactor, haware]
    rfl
  refine (hrow fun fields result => match result with
    | .error err => .fail err
    | .ok hash => do
      put (.insertAudit (fields.row hash))
      return fields.row hash).trans ?_
  rw [hhash]
  rfl

/-- What the logger asks of an event before it writes anything. -/
structure AuditEvent.Accepted (e : AuditEvent) : Prop where
  actor : e.actorType = "SYSTEM" ∨ e.actorType = "USER"
  aware : e.occurredAt.aware = true
  affected : e.affectedRecords.Accepted
  before : e.beforeState.Accepted
  after : e.afterState.Accepted

/-- Such an event is always appended, and nothing but the audit table changes. -/
theorem AuditLogger.append_accepted (logger : AuditLogger) {e : AuditEvent} (he : e.Accepted)
    (s : Session) :
    (logger.append e).wp
      (fun row s' => row.chainId = e.chainId ∧ s' = s.take.write (.insertAudit row))
      (fun _ _ => False) s := by
  have hactor : actorTypes.contains e.actorType = true := by
    obtain h | h := he.actor
    · rw [h]
      rfl
    · rw [h]
      rfl
  obtain ⟨hash, hhash⟩ := @computeHash_accepted logger.sha256.hexdigest
    (e.entry s.supply (s.view.chain e.chainId).getLast?) rfl he.aware he.affected he.before he.after
  unfold wp
  rw [AuditLogger.append_exec hactor he.aware hhash]
  exact ⟨rfl, rfl⟩

end Recon
