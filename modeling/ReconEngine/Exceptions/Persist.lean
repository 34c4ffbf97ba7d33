import ReconEngine.Audit.Logger
import ReconEngine.Exceptions.Routing

/-!
# Persisting exceptions

`ExceptionClassifier._persist` turns candidates into exceptions. A candidate whose dedupe key exists
is skipped; the others are routed, inserted under the unique key, and each gets a CREATED event and
an audit entry. The texts for people, and the records that only explain a finding, are left out.

**The laws** (`insertExceptions_spec`, `persist_creates`): the inserted rows are the candidates
whose key was new, routed and opened, in their order, each with one CREATED event, and no other row
of any table changes but the audit trail.

**What they do not establish.** Two classifications at once may both find a key free. The unique key
of the table refuses the second, and its transaction with it.
-/

set_option autoImplicit false

namespace Recon

open Store
open Store.Prog hiding pure bind

namespace ExceptionCategory

def text : ExceptionCategory → String
  | .missingInternal => "MISSING_INTERNAL"
  | .missingExternal => "MISSING_EXTERNAL"
  | .amountMismatch => "AMOUNT_MISMATCH"
  | .duplicateInternal => "DUPLICATE_INTERNAL"
  | .duplicateExternal => "DUPLICATE_EXTERNAL"
  | .dateMismatch => "DATE_MISMATCH"
  | .currencyMismatch => "CURRENCY_MISMATCH"
  | .directionReversal => "DIRECTION_REVERSAL"
  | .partialMatch => "PARTIAL_MATCH"
  | .nettedSettlement => "NETTED_SETTLEMENT"
  | .feeDeduction => "FEE_DEDUCTION"
  | .fxVariance => "FX_VARIANCE"
  | .staleTransaction => "STALE_TRANSACTION"
  | .formatError => "FORMAT_ERROR"
  | .referenceTruncated => "REFERENCE_TRUNCATED"
  | .timezoneOffset => "TIMEZONE_OFFSET"
  | .reversalPending => "REVERSAL_PENDING"
  | .regulatoryHold => "REGULATORY_HOLD"
  | .settlementDelay => "SETTLEMENT_DELAY"

end ExceptionCategory

def ExceptionSeverity.text : ExceptionSeverity → String
  | .critical => "CRITICAL"
  | .high => "HIGH"
  | .medium => "MEDIUM"
  | .low => "LOW"

def ExceptionStatus.text : ExceptionStatus → String
  | .open => "OPEN"
  | .inReview => "IN_REVIEW"
  | .escalated => "ESCALATED"
  | .resolved => "RESOLVED"
  | .writtenOff => "WRITTEN_OFF"
  | .reopened => "REOPENED"

/-- The entries of the dictionary, as an audit entry repeats them. -/
def AffectedRecords.entries (r : AffectedRecords) : List (PyKey × PyValue) :=
  let one (key : String) (id : Option Id) := (id.map fun i => (.str key, .str (idText i))).toList
  let many (key : String) (ids : List Id) : List (PyKey × PyValue) :=
    if ids = [] then [] else [(.str key, .list (ids.map fun i => .str (idText i)))]
  many "normalised_transaction_ids" r.normalisedTransactionIds ++
    one "original_transaction_id" r.originalTransactionId ++
    one "internal_transaction_id" r.internalTransactionId ++
    one "external_transaction_id" r.externalTransactionId ++
    one "match_result_id" r.matchResultId ++ one "match_group_id" r.matchGroupId ++
    many "match_result_ids" r.matchResultIds ++
    one "single_transaction_id" r.singleTransactionId ++
    many "member_transaction_ids" r.memberTransactionIds ++
    (if r.alreadyMatched then [(.str "already_matched", .bool true)] else []) ++
    many "raw_transaction_ids" r.rawTransactionIds

/-- `_Candidate`. -/
structure Candidate where
  category : ExceptionCategory
  dedupeKey : DedupeKey
  bankCode : String
  affectedRecords : AffectedRecords
  amountInrMinor : Option Int := none
  amountDifferenceMinor : Option Int := none
  daysOffset : Option Int := none
  fuzzyConfidence : Option Rat := none
  fxVariancePercent : Option Rat := none
  valueDate : Option Date := none
  ingestionFileId : Option Id := none
deriving DecidableEq, Repr

structure ClassifierOutcome where
  createdCount : Nat := 0
  skippedExistingCount : Nat := 0
deriving DecidableEq, Repr

def ClassifierOutcome.add (a b : ClassifierOutcome) : ClassifierOutcome where
  createdCount := a.createdCount + b.createdCount
  skippedExistingCount := a.skippedExistingCount + b.skippedExistingCount

/-- `_existing_keys`. -/
def Db.existingKeys (d : Db) (keys : List DedupeKey) : List DedupeKey :=
  (d.exceptions.map (·.dedupeKey)).filter (keys.contains ·)

/-- `_cumulative_daily_inr`: the value of the candidates of one bank and day, if there is any. -/
def cumulativeDailyInr (candidates : List Candidate) (bankCode : String)
    (day : Option Date) : Option Int :=
  let values := candidates.filterMap fun c =>
    if c.bankCode = bankCode ∧ c.valueDate = day ∧ day.isSome then c.amountInrMinor else none
  if values = [] then none else some values.sum

structure ExceptionService where
  logger : AuditLogger
  taxonomy : TaxonomyConfig

/-- The service with the shipped taxonomy. -/
def shippedService : ExceptionService := ⟨⟨constantDigests⟩, shippedTaxonomy⟩

namespace ExceptionService

variable (svc : ExceptionService)

/-- The context that a candidate of a batch is routed in. -/
def context (fresh : List Candidate) (batchCount : Nat) (c : Candidate) : ExceptionContext where
  category := c.category
  amountInrMinor := c.amountInrMinor
  cumulativeDailyInrMinor := cumulativeDailyInr fresh c.bankCode c.valueDate
  amountDifferenceMinor := c.amountDifferenceMinor
  daysOffset := c.daysOffset
  fuzzyConfidence := c.fuzzyConfidence
  fxVariancePercent := c.fxVariancePercent
  bankBatchExceptionCount := batchCount

/-- The exception that a routed candidate becomes. -/
def openException (c : Candidate) (decision : RoutingDecision) (runId : Option Id) (now : Instant)
    (id : Id) : ReconException where
  id := id
  dedupeKey := c.dedupeKey
  category := c.category
  severity := decision.severity
  status := .open
  assignedTier := decision.tier.value
  bankCode := c.bankCode
  runId := runId
  ingestionFileId := c.ingestionFileId
  affectedRecords := c.affectedRecords
  createdAt := now
  slaDeadline := decision.slaDeadline

/-- One insert, under the unique dedupe key. -/
def insertException (row : ReconException) : Prog Unit := do
  lockRow (.exceptionKey row.dedupeKey)
  let d ← tables
  require (!(d.exceptions.map (·.dedupeKey)).contains row.dedupeKey)
    (.integrity "uq_exceptions_dedupe_key")
  put (.insertException row)

def insertExceptions (fresh : List Candidate) (batchCount : Nat) (runId : Option Id)
    (now : Instant) : List Candidate → Prog (List ReconException)
  | [] => return []
  | c :: cs => do
    let id ← newId
    let row := openException c (route (context fresh batchCount c) svc.taxonomy now) runId now id
    insertException row
    let rows ← insertExceptions fresh batchCount runId now cs
    return row :: rows

def createdEvent (now : Instant) (row : ReconException) : ExceptionEvent where
  exceptionId := row.id
  eventType := .created
  fromTier := none
  toTier := row.assignedTier
  actor := "system:classifier"
  occurredAt := now

def insertEvents : List ExceptionEvent → Prog Unit
  | [] => return
  | e :: es => do
    put (.insertEvent e)
    insertEvents es

/-- The entry of `_audit_created`. -/
def createdEntry (now : Instant) (row : ReconException) : AuditEvent where
  chainId := exceptionsChain
  actorType := "SYSTEM"
  actorId := "classifier"
  actionType := "EXCEPTION_CREATE"
  affectedRecords := .dict ((.str "exception_id", .str (idText row.id)) :: row.affectedRecords.entries)
  rationale := row.category.text
  occurredAt := { utc := now }
  afterState := .dict
    [(.str "category", .str row.category.text), (.str "severity", .str row.severity.text),
      (.str "tier", .int row.assignedTier), (.str "status", .str "OPEN"),
      (.str "sla_deadline", .int row.slaDeadline)]

def auditCreated (now : Instant) : List ReconException → Prog Unit
  | [] => return
  | row :: rows => do
    let _ ← svc.logger.append (createdEntry now row)
    auditCreated now rows

/-- `_persist`. -/
def persist (candidates : List Candidate) (runId : Option Id) (now : Instant) (batchCount : Nat) :
    Prog ClassifierOutcome := do
  let d ← tables
  let existing := d.existingKeys (candidates.map (·.dedupeKey))
  let fresh := candidates.filter fun c => !existing.contains c.dedupeKey
  let rows ← svc.insertExceptions fresh batchCount runId now fresh
  insertEvents (rows.map (createdEvent now))
  svc.auditCreated now rows
  return ⟨rows.length, candidates.length - fresh.length⟩

end ExceptionService

/-! ## What is created -/

/-- The write leaves the exceptions and their events alone. -/
def RowWrite.LeavesExceptions : RowWrite → Prop
  | .insertException _ | .updateException .. | .insertEvent _ => False
  | _ => True

/-- Writes to other tables leave exceptions and events as they are. -/
theorem exceptions_apply (w : RowWrite) (d : Db) (h : w.LeavesExceptions) :
    ((w.apply d).exceptions, (w.apply d).events) = (d.exceptions, d.events) := by
  cases w with
  | insertException e => exact h.elim
  | updateException id columns => exact h.elim
  | insertEvent e => exact h.elim
  | _ => rfl

theorem append_leavesExceptions (logger : AuditLogger) (event : AuditEvent) :
    (logger.append event).Work RowWrite.LeavesExceptions := by
  refine (logger.append_work event).weaken ?_
  rintro _ ⟨row, rfl⟩
  trivial

theorem auditCreated_leavesExceptions (svc : ExceptionService) (now : Instant) :
    ∀ rows, (svc.auditCreated now rows).Work RowWrite.LeavesExceptions
  | [] => work_pure _
  | _ :: rows => Work.bind (append_leavesExceptions _ _) fun _ =>
      auditCreated_leavesExceptions svc now rows

/-- An insertion that passes the unique key is one write. -/
theorem insertException_spec (row : ReconException) (s : Session) :
    (ExceptionService.insertException row).wp (fun _ s' => s' = s.write (.insertException row))
      (fun _ _ => True) s := by
  unfold ExceptionService.insertException
  simp only [bind_eq, wp_bind, wp_lockRow, wp_tables, wp_require]
  split
  · exact rfl
  · trivial

/-- The inserted rows are new, each is its candidate routed and opened, and nothing else changes. -/
theorem insertExceptions_spec (svc : ExceptionService) (fresh : List Candidate) (batchCount : Nat)
    (runId : Option Id) (now : Instant) : ∀ (cs : List Candidate) (s : Session),
    (svc.insertExceptions fresh batchCount runId now cs).wp
      (fun rows s' => s.supply ≤ s'.supply ∧ (rows.map (·.id)).Nodup ∧
        (∀ row ∈ rows, s.supply ≤ row.id ∧ row.id < s'.supply) ∧
        List.Forall₂ (fun c row => row = ExceptionService.openException c
          (route (ExceptionService.context fresh batchCount c) svc.taxonomy now) runId now row.id)
          cs rows ∧
        s'.view.exceptions = s.view.exceptions ++ rows ∧ s'.view.events = s.view.events)
      (fun _ _ => True) s
  | [], s => ⟨le_refl _, List.nodup_nil, fun _ h => absurd h List.not_mem_nil, .nil,
      (List.append_nil _).symm, rfl⟩
  | c :: cs, s => by
    unfold ExceptionService.insertExceptions
    rw [bind_eq, wp_bind, wp_newId]
    dsimp only
    rw [bind_eq, wp_bind]
    refine (insertException_spec _ s.take).mono ?_ fun _ _ _ => trivial
    intro _ s₁ hs₁
    rw [bind_eq, wp_bind]
    have hview : s₁.view = RowWrite.apply (.insertException (ExceptionService.openException c (route
        (ExceptionService.context fresh batchCount c) svc.taxonomy now) runId now s.supply))
          s.view := by
      rw [hs₁, Session.view_write, Session.view_take]
    refine (insertExceptions_spec svc fresh batchCount runId now cs s₁).mono ?_ fun _ _ _ => trivial
    rintro rows s₂ ⟨hsupply, hids, hfresh, hrows, he, hv⟩
    have hnext : s₁.supply = s.supply + 1 := by rw [hs₁]; rfl
    rw [hnext] at hsupply hfresh
    refine ⟨Nat.le_of_succ_le hsupply, ?_, ?_, .cons rfl hrows, ?_, ?_⟩
    · rw [List.map_cons, List.nodup_cons]
      refine ⟨fun hmem => ?_, hids⟩
      obtain ⟨row, hrow, hid⟩ := List.mem_map.mp hmem
      exact Nat.ne_of_gt (hfresh row hrow).1 hid
    · intro row hrow
      rcases List.mem_cons.mp hrow with rfl | hrow
      · exact ⟨le_refl _, hsupply⟩
      · exact ⟨Nat.le_of_succ_le (hfresh row hrow).1, (hfresh row hrow).2⟩
    · rw [he, hview]
      exact List.append_assoc _ _ _
    · rw [hv, hview]
      rfl

/-- Events are appended in their order. -/
theorem insertEvents_spec : ∀ (vs : List ExceptionEvent) (s : Session),
    (ExceptionService.insertEvents vs).wp
      (fun _ s' => s'.supply = s.supply ∧ s'.view.exceptions = s.view.exceptions ∧
        s'.view.events = s.view.events ++ vs)
      (fun _ _ => True) s
  | [], s => ⟨rfl, rfl, (List.append_nil _).symm⟩
  | v :: vs, s => by
    unfold ExceptionService.insertEvents
    rw [bind_eq, wp_bind, wp_put]
    refine (insertEvents_spec vs (s.write (.insertEvent v))).mono ?_ fun _ _ _ => trivial
    rintro _ s' ⟨hsupply, he, hv⟩
    rw [Session.view_write] at he hv
    exact ⟨hsupply, he, hv.trans (List.append_assoc _ _ _)⟩

/-- The candidates whose key is new. -/
def Db.freshCandidates (d : Db) (candidates : List Candidate) : List Candidate :=
  candidates.filter fun c => !(d.existingKeys (candidates.map (·.dedupeKey))).contains c.dedupeKey

/-- Persisting appends a row for each candidate whose key is new, with its CREATED event. -/
theorem persist_creates (svc : ExceptionService) (candidates : List Candidate) (runId : Option Id)
    (now : Instant) (batchCount : Nat) (s : Session) :
    (svc.persist candidates runId now batchCount).wp
      (fun _ s' => ∃ rows, s.supply ≤ s'.supply ∧ (rows.map (·.id)).Nodup ∧
        (∀ row ∈ rows, s.supply ≤ row.id ∧ row.id < s'.supply) ∧
        List.Forall₂ (fun c row => row = ExceptionService.openException c
          (route (ExceptionService.context (s.view.freshCandidates candidates) batchCount c)
            svc.taxonomy now) runId now row.id) (s.view.freshCandidates candidates) rows ∧
        s'.view.exceptions = s.view.exceptions ++ rows ∧
        s'.view.events = s.view.events ++ rows.map (ExceptionService.createdEvent now))
      (fun _ _ => True) s := by
  unfold ExceptionService.persist
  rw [bind_eq, wp_bind, wp_tables, bind_eq, wp_bind]
  refine (insertExceptions_spec svc _ batchCount runId now _ s).mono ?_ fun _ _ _ => trivial
  rintro rows s₁ ⟨hsupply, hids, hfresh, hrows, he, hv⟩
  rw [bind_eq, wp_bind]
  refine (insertEvents_spec _ s₁).mono ?_ fun _ _ _ => trivial
  rintro _ s₂ ⟨hsupply₂, he₂, hv₂⟩
  rw [bind_eq, wp_bind]
  refine (Work.wp_keeps (f := fun d : Db => (d.exceptions, d.events)) exceptions_apply
    (auditCreated_leavesExceptions svc now rows) s₂).mono ?_ fun _ _ _ => trivial
  rintro _ s₃ ⟨hsupply₃, hsame⟩
  obtain ⟨he₃, hv₃⟩ := Prod.mk.inj hsame
  refine ⟨rows, ?_, hids, fun row hrow => ⟨(hfresh row hrow).1, ?_⟩, hrows, ?_, ?_⟩
  · exact hsupply.trans (hsupply₂ ▸ hsupply₃)
  · exact lt_of_lt_of_le (hfresh row hrow).2 (hsupply₂ ▸ hsupply₃)
  · rw [he₃, he₂, he]
  · rw [hv₃, hv₂, hv]

/-! ## What is written -/

/-- The writes that the handling of exceptions makes, and no others. -/
def RowWrite.OfExceptions : RowWrite → Prop
  | .insertException _ | .updateException .. | .insertEvent _ | .insertAdjustment _
  | .transactionStatus .. | .voidTransaction .. | .insertResult _ | .resultStatus ..
  | .insertClaim _ | .claimResult .. => True
  | .insertAudit row => row.chainId = exceptionsChain ∨ row.chainId = matchingChain
  | _ => False

/-- An entry on the chain of exceptions or of matching. -/
theorem append_ofExceptions (logger : AuditLogger) {event : AuditEvent}
    (h : event.chainId = exceptionsChain ∨ event.chainId = matchingChain) :
    (logger.append event).Work RowWrite.OfExceptions := by
  refine (logger.append_chain_work event).weaken ?_
  rintro _ ⟨row, rfl, hrow⟩
  show row.chainId = exceptionsChain ∨ row.chainId = matchingChain
  rw [hrow]
  exact h

/-- The writes that raise an exception. -/
def RowWrite.OfCreation : RowWrite → Prop
  | .insertException _ | .insertEvent _ => True
  | .insertAudit row => row.chainId = exceptionsChain
  | _ => False

theorem ofCreation_ofExceptions {w : RowWrite} (h : w.OfCreation) : w.OfExceptions := by
  cases w with
  | insertException e => trivial
  | insertEvent e => trivial
  | insertAudit row => exact .inl h
  | _ => exact h.elim

namespace ExceptionService

variable (svc : ExceptionService)

theorem insertException_ofCreation (row : ReconException) :
    (insertException row).Work RowWrite.OfCreation :=
  Work.bind (work_lockRow _) fun _ => Work.bind work_tables fun _ =>
    Work.bind (work_require _ _) fun _ => work_put.mpr trivial

theorem insertExceptions_ofCreation (fresh : List Candidate) (batchCount : Nat)
    (runId : Option Id) (now : Instant) :
    ∀ cs, (svc.insertExceptions fresh batchCount runId now cs).Work RowWrite.OfCreation
  | [] => work_pure _
  | _ :: cs => Work.bind work_newId fun _ => Work.bind (insertException_ofCreation _) fun _ =>
      Work.bind (insertExceptions_ofCreation fresh batchCount runId now cs) fun _ => work_pure _

theorem insertEvents_ofCreation : ∀ vs, (insertEvents vs).Work RowWrite.OfCreation
  | [] => work_pure _
  | _ :: vs => Work.bind (work_put.mpr trivial) fun _ => insertEvents_ofCreation vs

theorem auditCreated_ofCreation (now : Instant) :
    ∀ rows, (svc.auditCreated now rows).Work RowWrite.OfCreation
  | [] => work_pure _
  | _ :: rows => by
    refine Work.bind ((svc.logger.append_chain_work _).weaken ?_) fun _ =>
      auditCreated_ofCreation now rows
    rintro _ ⟨row, hw, hrow⟩
    exact hw ▸ hrow

/-- Persisting creates: it writes new exceptions, their events and entries. -/
theorem persist_ofCreation (candidates : List Candidate) (runId : Option Id) (now : Instant)
    (batchCount : Nat) :
    (svc.persist candidates runId now batchCount).Work RowWrite.OfCreation :=
  Work.bind work_tables fun _ => Work.bind (svc.insertExceptions_ofCreation _ _ _ _ _) fun _ =>
    Work.bind (insertEvents_ofCreation _) fun _ => Work.bind (svc.auditCreated_ofCreation _ _)
      fun _ => work_pure _

theorem insertEvents_work (vs : List ExceptionEvent) : (insertEvents vs).Work RowWrite.OfExceptions :=
  (insertEvents_ofCreation vs).weaken fun _ => ofCreation_ofExceptions

theorem persist_work (candidates : List Candidate) (runId : Option Id) (now : Instant)
    (batchCount : Nat) :
    (svc.persist candidates runId now batchCount).Work RowWrite.OfExceptions :=
  (svc.persist_ofCreation candidates runId now batchCount).weaken fun _ => ofCreation_ofExceptions

end ExceptionService

end Recon
