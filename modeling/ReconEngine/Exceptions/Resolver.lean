import ReconEngine.Exceptions.Persist
import ReconEngine.Matching.Pools
import ReconEngine.Matching.Review

/-!
# Auto-resolution

`AutoResolver` acts on the OPEN exceptions of tier 1: it voids a duplicate ledger row, or settles a
pair by confirming its match, accepting it, or writing a RULE match, and posts an adjustment for a
bank fee. An action runs in a savepoint. When it cannot be carried out safely the exception moves to
tier 2; any other error is the caller's.

The transactions are read without a lock and relied on from then on.

**The spec lemmas** (`wp_attemptAct`, `mem_autoResolvable`): an action in its savepoint either
leaves what it wrote or gives everything back but the identifiers it spent, and a run takes the
exceptions that were OPEN, of tier 1 and of its bank when it began.

**What they do not establish.** That the rows stay as they were read. `Exceptions.Voiding` follows
the same program statement by statement beside people who match by hand, and finds the gap.
-/

set_option autoImplicit false

namespace Recon

open Store.Prog hiding pure bind

def autoResolver : String := "system:auto-resolver"

/-- `_RULE_BY_CATEGORY`. -/
def ruleByCategory : ExceptionCategory → Option String
  | .amountMismatch => some "AMOUNT_TOLERANCE_AUTO"
  | .dateMismatch => some "DATE_OFFSET_AUTO"
  | .timezoneOffset => some "TIMEZONE_DATE_ADJUSTED"
  | .referenceTruncated => some "REFERENCE_PREFIX_REMATCH"
  | .feeDeduction => some "FEE_DEDUCTION_ADJUSTED"
  | _ => none

/-- The errors that send an exception to a person: `NotAutoResolvableError`, `ClaimConflictError`
and the review errors. -/
def ReconError.leavesToPerson : ReconError → Bool
  | .notAutoResolvable _ | .claimConflict _ | .matchNotFound _ | .matchNotPending _
  | .reviewState _ => true
  | _ => false

/-- `_transaction`. -/
def readTransaction (id : Id) : Prog NormalisedTransaction := do
  let d ← tablesMarking fun _ => [.transaction id]
  match d.transaction? id with
  | some t => return t
  | none => .fail (.notAutoResolvable "transaction no longer exists")

/-- An entry that the exception must have. -/
def record {α : Type} (key : String) : Option α → Prog α
  | some a => return a
  | none => .fail (.keyError key)

/-- `_void_duplicate`. -/
def voidDuplicate (records : AffectedRecords) : Prog Unit := do
  let copyId ← record "normalised_transaction_ids" records.normalisedTransactionIds.head?
  let copy ← readTransaction copyId
  let original ← record "original_transaction_id" records.originalTransactionId
  let d ← tables
  require (copy.matchStatus = .unmatched && !d.isClaimed copy.id)
    (.notAutoResolvable "the duplicate is already matched; unmatching it needs an analyst")
  lockRow (.transaction copy.id)
  put (.voidTransaction copy.id original)

/-- The RULE match of a leftover pair. -/
def autoResolveColumns (ruleId : String) (internal external : NormalisedTransaction) :
    MatchColumns where
  runId := .autoResolve ruleId
  matchType := .rule
  status := .autoMatched
  confidence := 900
  internalTransactionId := internal.id
  externalTransactionId := external.id
  candidateCount := 1
  ruleId := some ruleId
  matchedOnDate := external.txnDate

/-- The pair has a match: confirm it when it is under review. -/
def settleMatched (logger : AuditLogger) (result : Id) (ruleId : String) (now : Instant) :
    Prog Unit := do
  let d ← tables
  match d.result? result with
  | none => .fail (.notAutoResolvable "the match result no longer exists")
  | some r =>
    match r.status with
    | .pendingReview => do
      let _ ← confirmMatch logger result autoResolver (some ruleId) true now
    | .autoMatched | .confirmed => return
    | .rejected => .fail (.notAutoResolvable "the pair's match is REJECTED")

/-- The pair has none: claim both sides and write one. -/
def settleLeftover (internal external : NormalisedTransaction) (ruleId : String) : Prog Unit := do
  require (internal.matchStatus = .unmatched && external.matchStatus = .unmatched)
    (.notAutoResolvable "one of the transactions is no longer unmatched")
  let d ← tablesMarking fun _ => [.rejectedPairs [internal.id] [external.id]]
  require (!(d.rejectedPairs [internal.id]).contains (internal.id, external.id))
    (.notAutoResolvable "a person unmatched this pair; it is not re-matched")
  match ← recordPair (autoResolveColumns ruleId internal external) with
  | none => .fail (.claimConflict [internal.id, external.id])
  | some _ => markMatched (autoResolveColumns ruleId internal external)

/-- `_settle_pair`. -/
def settlePair (logger : AuditLogger) (records : AffectedRecords)
    (internal external : NormalisedTransaction) (ruleId : String) (now : Instant) : Prog Unit :=
  match records.matchResultId with
  | some result => settleMatched logger result ruleId now
  | none => settleLeftover internal external ruleId

/-- `_post_fee_adjustment`; an exception has at most one, of a positive amount. -/
def postFeeAdjustment (e : ReconException) (internal external : NormalisedTransaction) :
    Prog Unit := do
  require (internal.amountMinor ≠ external.amountMinor)
    (.integrity "ck_ledger_adjustments_amount_positive")
  lockRow (.adjustmentKey e.id)
  let d ← tables
  require (!(d.adjustments.map (·.exceptionId)).contains e.id)
    (.integrity "uq_ledger_adjustments_exception_id")
  put (.insertAdjustment
    { exceptionId := e.id, bankCode := e.bankCode, internalTransactionId := internal.id,
      externalTransactionId := external.id,
      amountMinor := |internal.amountMinor - external.amountMinor|, currency := internal.currency })

/-- `_act`. -/
def act (logger : AuditLogger) (e : ReconException) (now : Instant) : Prog Unit :=
  match e.category with
  | .duplicateInternal => voidDuplicate e.affectedRecords
  | .partialMatch | .nettedSettlement => return
  | category =>
    match ruleByCategory category with
    | none => .fail (.notAutoResolvable (category.text ++ " has no automatic action"))
    | some ruleId => do
      let i ← record "internal_transaction_id" e.affectedRecords.internalTransactionId
      let internal ← readTransaction i
      let x ← record "external_transaction_id" e.affectedRecords.externalTransactionId
      let external ← readTransaction x
      settlePair logger e.affectedRecords internal external ruleId now
      if category = .feeDeduction then postFeeAdjustment e internal external else return

/-! ## Outcomes -/

/-- A change of an exception on the audit trail. -/
def exceptionEntry (e : ReconException) (actorType actorId action : String)
    (affected : List (PyKey × PyValue)) (before after : List (PyKey × PyValue)) (rationale : String)
    (now : Instant) : AuditEvent where
  chainId := exceptionsChain
  actorType := actorType
  actorId := actorId
  actionType := action
  affectedRecords := .dict ((.str "exception_id", .str (idText e.id)) :: affected)
  rationale := rationale
  occurredAt := { utc := now }
  beforeState := .dict before
  afterState := .dict after

def statusAndTier (status : ExceptionStatus) (tier : Nat) : List (PyKey × PyValue) :=
  [(.str "status", .str status.text), (.str "tier", .int tier)]

/-- `_resolve`. -/
def autoResolve (logger : AuditLogger) (e : ReconException) (now : Instant) : Prog Unit := do
  put (.updateException e.id
    { status := some .resolved, resolvedAt := some (some now), resolvedBy := some (some autoResolver) })
  put (.insertEvent ⟨e.id, .resolved, some 1, 1, autoResolver, now⟩)
  let _ ← logger.append (exceptionEntry e "SYSTEM" "auto-resolver" "RESOLVE"
    e.affectedRecords.entries (statusAndTier e.status e.assignedTier)
    (statusAndTier .resolved e.assignedTier) e.category.text now)

/-- `_escalate`. -/
def autoEscalate (logger : AuditLogger) (e : ReconException) (now : Instant) : Prog Unit := do
  put (.updateException e.id { assignedTier := some 2 })
  put (.insertEvent ⟨e.id, .escalated, some 1, 2, autoResolver, now⟩)
  let _ ← logger.append (exceptionEntry e "SYSTEM" "auto-resolver" "ESCALATE" []
    (statusAndTier e.status e.assignedTier) (statusAndTier e.status 2)
    "auto-resolution not possible" now)

structure AutoResolveOutcome where
  resolvedCount : Nat := 0
  escalatedCount : Nat := 0
deriving DecidableEq, Repr

/-- What becomes of the exception. -/
def autoOutcome (logger : AuditLogger) (now : Instant) (e : ReconException) (acted : Bool) :
    Prog Unit :=
  if acted then autoResolve logger e now else autoEscalate logger e now

/-- One exception: act in a savepoint, then resolve or escalate. -/
def autoResolveOne (logger : AuditLogger) (now : Instant) (e : ReconException) : Prog Bool := do
  let acted ← attempt (do
    act logger e now
    return true) fun err => if err.leavesToPerson then return false else .fail err
  autoOutcome logger now e acted
  return acted

/-- Every row of a list, with the number of those that said yes and of those that said no. -/
def eachRow (one : ReconException → Prog Bool) : List ReconException → Prog (Nat × Nat)
  | [] => return (0, 0)
  | e :: es => do
    let yes ← one e
    let (a, b) ← eachRow one es
    return if yes then (a + 1, b) else (a, b + 1)

/-- Lock every row of a list. -/
def lockAll : List ReconException → Prog Unit
  | [] => return
  | e :: es => do
    lockRow (.exception e.id)
    lockAll es

/-- The OPEN exceptions of tier 1, by creation. -/
def Db.autoResolvable (d : Db) (bankCode : String) (runId : Option Id) : List ReconException :=
  (d.exceptions.filter fun e => e.bankCode = bankCode ∧ e.status = .open ∧ e.assignedTier = 1 ∧
    (runId.isNone ∨ e.runId = runId)).insertionSort
      fun a b => a.createdAt < b.createdAt ∨ a.createdAt = b.createdAt ∧ a.id ≤ b.id

/-- `AutoResolver.run`. -/
def autoResolverRun (logger : AuditLogger) (bankCode : String) (runId : Option Id) (now : Instant) :
    Prog AutoResolveOutcome := do
  let d ← tables
  lockAll (d.autoResolvable bankCode runId)
  let (resolved, escalated) ← eachRow (autoResolveOne logger now) (d.autoResolvable bankCode runId)
  return ⟨resolved, escalated⟩

/-! ## What is written -/

/-- The writes of an action. -/
def RowWrite.ByAction : RowWrite → Prop
  | .transactionStatus .. | .voidTransaction .. | .insertResult _ | .resultStatus ..
  | .insertClaim _ | .claimResult .. | .insertAdjustment _ => True
  | .insertAudit row => row.chainId = matchingChain
  | _ => False

theorem byAction_ofExceptions {w : RowWrite} (h : w.ByAction) : w.OfExceptions := by
  cases w with
  | insertAudit row => exact .inr h
  | _ => trivial

/-- The writes that settle a pair. -/
def RowWrite.OfSettling : RowWrite → Prop
  | .transactionStatus _ status => status = .matched
  | .insertResult _ | .resultStatus .. | .insertClaim _ | .claimResult .. => True
  | .insertAudit row => row.chainId = matchingChain
  | _ => False

theorem ofSettling_byAction {w : RowWrite} (h : w.OfSettling) : w.ByAction := by
  cases w with
  | insertAudit row => exact h
  | transactionStatus id status => trivial
  | voidTransaction id original => trivial
  | insertAdjustment a => trivial
  | _ => exact h

theorem append_ofSettling (logger : AuditLogger) {event : AuditEvent}
    (h : event.chainId = matchingChain) : (logger.append event).Work RowWrite.OfSettling := by
  refine (logger.append_chain_work event).weaken ?_
  rintro _ ⟨row, rfl, hrow⟩
  exact hrow.trans h

theorem confirmMatch_work (logger : AuditLogger) (id : Id) (reviewer : String)
    (note : Option String) (automated : Bool) (now : Instant) :
    (confirmMatch logger id reviewer note automated now).Work RowWrite.OfSettling := by
  refine Work.bind (Work.bind (work_lockRow _) fun _ => Work.bind work_tables fun d => ?_)
    fun result => ?_
  · split
    · exact work_fail _
    · split
      · exact work_pure _
      · exact work_fail _
  · refine Work.bind (Work.bind (work_lockRow _) fun _ => Work.bind (work_lockRow _) fun _ =>
      Work.bind work_tables fun d => Work.bind (work_require _ _) fun _ => work_pure _)
      fun transactions => ?_
    exact Work.bind work_tables fun d => Work.bind (work_require _ _) fun _ =>
      Work.bind (work_require _ _) fun _ => Work.bind (markAll_work (fun _ => rfl) _) fun _ =>
      Work.bind (work_put.mpr trivial) fun _ => Work.bind (append_ofSettling _ rfl) fun _ =>
      work_pure _

theorem record_work {α : Type} {W : RowWrite → Prop} (key : String) (a : Option α) :
    (record key a).Work W := by
  cases a with
  | none => exact work_fail _
  | some a => exact work_pure _

theorem readTransaction_work {W : RowWrite → Prop} (id : Id) : (readTransaction id).Work W := by
  refine Work.bind (work_tablesMarking _) fun d => ?_
  split
  · exact work_pure _
  · exact work_fail _

theorem settleMatched_work (logger : AuditLogger) (result : Id) (ruleId : String) (now : Instant) :
    (settleMatched logger result ruleId now).Work RowWrite.OfSettling := by
  refine Work.bind work_tables fun d => ?_
  split
  · exact work_fail _
  · split
    · exact Work.bind (confirmMatch_work _ _ _ _ _ _) fun _ => work_pure _
    · exact work_pure _
    · exact work_pure _
    · exact work_fail _

theorem settleLeftover_work {W : RowWrite → Prop} (internal external : NormalisedTransaction)
    (ruleId : String) (hclaim : ∀ c, W (.insertClaim c)) (hset : ∀ c r, W (.claimResult c r))
    (hresult : ∀ id, W (.insertResult { autoResolveColumns ruleId internal external with id := id }))
    (hstatus : ∀ t, W (.transactionStatus t .matched)) :
    (settleLeftover internal external ruleId).Work W := by
  refine Work.bind (work_require _ _) fun _ => Work.bind (work_tablesMarking _) fun d =>
    Work.bind (work_require _ _) fun _ => Work.bind (recordPair_work hclaim hset hresult) fun out => ?_
  cases out with
  | none => exact work_fail _
  | some id => exact markAll_work hstatus _

theorem settlePair_work (logger : AuditLogger) (records : AffectedRecords)
    (internal external : NormalisedTransaction) (ruleId : String) (now : Instant) :
    (settlePair logger records internal external ruleId now).Work RowWrite.OfSettling := by
  unfold settlePair
  split
  · exact settleMatched_work _ _ _ _
  · exact settleLeftover_work _ _ _ (fun _ => trivial) (fun _ _ => trivial) (fun _ => trivial)
      fun _ => rfl

/-- Whatever the action, it writes as an action may. -/
theorem act_work (logger : AuditLogger) (e : ReconException) (now : Instant) :
    (act logger e now).Work RowWrite.ByAction := by
  unfold act
  split
  · exact Work.bind (record_work _ _) fun _ => Work.bind (readTransaction_work _) fun _ =>
      Work.bind (record_work _ _) fun _ => Work.bind work_tables fun _ =>
      Work.bind (work_require _ _) fun _ => Work.bind (work_lockRow _) fun _ => work_put.mpr trivial
  · exact work_pure _
  · exact work_pure _
  · split
    · exact work_fail _
    · refine Work.bind (record_work _ _) fun _ => Work.bind (readTransaction_work _) fun _ =>
        Work.bind (record_work _ _) fun _ => Work.bind (readTransaction_work _) fun _ =>
        Work.bind ((settlePair_work _ _ _ _ _ _).weaken fun _ => ofSettling_byAction) fun _ => ?_
      split
      · exact Work.bind (work_require _ _) fun _ => Work.bind (work_lockRow _) fun _ =>
          Work.bind work_tables fun _ => Work.bind (work_require _ _) fun _ => work_put.mpr trivial
      · exact work_pure _

/-- An action in its savepoint, which gives back what a failing one wrote: only identifiers are
spent. -/
theorem wp_attemptAct {logger : AuditLogger} {e : ReconException} {now : Instant} {s : Session}
    {Q : Bool → Session → Prop} {fails : Prop}
    (hact : (act logger e now).wp (fun _ s' => Q true s')
      (fun err _ => err.leavesToPerson = true ∨ fails) s)
    (hback : ∀ s' : Session, s.supply ≤ s'.supply → s'.view = s.view → Q false s') :
    (attempt (do
      act logger e now
      return true) fun err => if err.leavesToPerson then return false else .fail err).wp Q
      (fun _ _ => fails) s := by
  have hwork := act_work logger e now
  refine Work.wp_attempt (Work.bind hwork fun _ => work_pure true) ?_
  rw [wp_bind]
  refine (hact.and (hwork.wp_frame s)).mono (fun _ _ h => h.1) ?_
  rintro err s₁ ⟨hleaves, hcommitted, hsupply, -⟩
  rw [wp_ite]
  split
  · refine hback _ hsupply ?_
    show schema.replay s.log s₁.committed = schema.replay s.log s.committed
    rw [hcommitted]
  · rename_i hnot
    exact hleaves.resolve_left hnot

theorem autoOutcome_work (logger : AuditLogger) (now : Instant) (e : ReconException) (acted : Bool) :
    (autoOutcome logger now e acted).Work RowWrite.OfExceptions := by
  unfold autoOutcome
  split
  · exact Work.bind (work_put.mpr trivial) fun _ => Work.bind (work_put.mpr trivial) fun _ =>
      Work.bind (append_ofExceptions _ (.inl rfl)) fun _ => work_pure _
  · exact Work.bind (work_put.mpr trivial) fun _ => Work.bind (work_put.mpr trivial) fun _ =>
      Work.bind (append_ofExceptions _ (.inl rfl)) fun _ => work_pure _

/-- A turn writes its action, its outcome, one event and one entry. -/
theorem autoResolveOne_work (logger : AuditLogger) (now : Instant) (e : ReconException) :
    (autoResolveOne logger now e).Work RowWrite.OfExceptions := by
  have hact := (act_work logger e now).weaken fun w hw => byAction_ofExceptions hw
  refine Work.bind (Work.attempt (Work.bind hact fun _ => work_pure _) fun err => ?_) fun acted =>
    Work.bind (autoOutcome_work _ _ _ _) fun _ => work_pure _
  split
  · exact work_pure _
  · exact work_fail _

theorem eachRow_work {W : RowWrite → Prop} {one : ReconException → Prog Bool}
    (h : ∀ e, (one e).Work W) : ∀ es, (eachRow one es).Work W
  | [] => work_pure _
  | e :: es => Work.bind (h e) fun _ => Work.bind (eachRow_work h es) fun _ => work_pure _

theorem lockAll_work {W : RowWrite → Prop} : ∀ es, (lockAll es).Work W
  | [] => work_pure _
  | _ :: es => Work.bind (work_lockRow _) fun _ => lockAll_work es

/-- The locks of a run have no effect when it runs alone. -/
theorem lockAll_wp {s : Session} {Q : Unit → Session → Prop} {E : ReconError → Session → Prop} :
    ∀ {es : List ReconException}, (lockAll es).wp Q E s ↔ Q () s
  | [] => Iff.rfl
  | e :: es => by
    unfold lockAll
    rw [bind_eq, wp_bind, wp_lockRow]
    exact lockAll_wp

/-- Rows picked from a table keep their identifiers apart, in whatever order. -/
theorem picked_ids {d : Db} (h : (d.exceptions.map (·.id)).Nodup) (p : ReconException → Bool)
    (le : ReconException → ReconException → Prop) [DecidableRel le] :
    (((d.exceptions.filter p).insertionSort le).map (·.id)).Nodup := by
  have hperm := (List.perm_insertionSort le (d.exceptions.filter p)).map (·.id)
  exact hperm.nodup_iff.mpr (h.sublist (List.filter_sublist.map _))

/-- Sorting picks nothing and drops nothing. -/
theorem mem_picked {d : Db} {p : ReconException → Bool}
    {le : ReconException → ReconException → Prop} [DecidableRel le] {e : ReconException} :
    e ∈ (d.exceptions.filter p).insertionSort le ↔ e ∈ d.exceptions ∧ p e = true := by
  rw [(List.perm_insertionSort le _).mem_iff, List.mem_filter]

/-- The exceptions of a run: OPEN, of tier 1, of the bank and the run. -/
theorem mem_autoResolvable {d : Db} {bankCode : String} {runId : Option Id} {e : ReconException} :
    e ∈ d.autoResolvable bankCode runId ↔ e ∈ d.exceptions ∧ e.bankCode = bankCode ∧
      e.status = .open ∧ e.assignedTier = 1 ∧ (runId.isNone ∨ e.runId = runId) := by
  rw [Db.autoResolvable, mem_picked, decide_eq_true_eq]

theorem autoResolverRun_work (logger : AuditLogger) (bankCode : String) (runId : Option Id)
    (now : Instant) :
    (autoResolverRun logger bankCode runId now).Work RowWrite.OfExceptions :=
  Work.bind work_tables fun _ => Work.bind (lockAll_work _) fun _ =>
    Work.bind (eachRow_work (autoResolveOne_work logger now) _) fun _ => work_pure _

end Recon
