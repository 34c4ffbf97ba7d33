import ReconEngine.Matching.Record

/-!
# Review

`MatchReviewService`: a person, or the auto-resolver in the place of one, decides about a match
under review. A decision is final, under the lock of the result row. Confirming checks that the
claims and the transactions of the pair are as matching left them.

**The laws** (`confirmMatch_spec`, `rejectMatch_spec`): both are decisions that fit the tables
(`Matching.Ledger`), or fail with a `ReviewError` and write nothing.

**What they do not establish.** That a second decision about the same row fails because of the
first: that is the lock of the row, and it shows only where requests overlap (`Matching.Deadlocks`).
-/

set_option autoImplicit false

namespace Recon

open Store.Prog hiding pure bind

namespace Db

def result? (d : Db) (id : Id) : Option MatchResult := d.results.find? (·.id = id)

def transaction? (d : Db) (id : Id) : Option NormalisedTransaction :=
  d.transactions.find? (·.id = id)

/-- `_active_claims`. -/
def activeClaims (d : Db) (result : Id) : List MatchClaim :=
  d.claims.filter fun c => c.matchResultId = some result ∧ c.status = .active

end Db

/-- `_lock_pending`. -/
def lockPending (id : Id) : Prog MatchResult := do
  lockRow (.result id)
  let d ← tables
  match d.result? id with
  | none => .fail (.matchNotFound id)
  | some result =>
    if result.status = .pendingReview then return result else .fail (.matchNotPending result.status)

/-- `_transactions`: both sides, locked. -/
def reviewTransactions (result : MatchResult) : Prog (List NormalisedTransaction) := do
  lockRow (.transaction result.internalTransactionId)
  lockRow (.transaction result.externalTransactionId)
  let d ← tables
  let rows := d.transactions.filter fun t =>
    t.id ∈ [result.internalTransactionId, result.externalTransactionId]
  require (rows.length = 2) (.reviewState "one of the pair's transactions no longer exists")
  return rows

/-- `_audit_review`. -/
def reviewEvent (result : MatchResult) (action : String) (reviewer rationale after : String)
    (automated : Bool) (now : Instant) : AuditEvent where
  chainId := matchingChain
  actorType := if automated then "SYSTEM" else "USER"
  actorId := if automated then reviewer else "api-key:" ++ reviewer
  actionType := action
  affectedRecords := .dict
    [(.str "match_result_id", .str (idText result.id)),
      (.str "internal_transaction_id", .str (idText result.internalTransactionId)),
      (.str "external_transaction_id", .str (idText result.externalTransactionId))]
  rationale := rationale
  occurredAt := { utc := now }
  beforeState := .dict [(.str "status", .str "PENDING_REVIEW")]
  afterState := .dict [(.str "status", .str after)]

/-- The claims are two, and they are those of the two sides. -/
def expectedClaims (result : MatchResult) (claims : List MatchClaim) : Bool :=
  let held := claims.map (·.normalisedTransactionId)
  claims.length == 2 &&
    held.all ([result.internalTransactionId, result.externalTransactionId].contains ·) &&
    [result.internalTransactionId, result.externalTransactionId].all (held.contains ·)

/-- `MatchReviewService.confirm`. -/
def confirmMatch (logger : AuditLogger) (id : Id) (reviewer : String) (note : Option String)
    (automated : Bool) (now : Instant) : Prog MatchResult := do
  let result ← lockPending id
  let transactions ← reviewTransactions result
  let d ← tables
  require (expectedClaims result (d.activeClaims id))
    (.reviewState "the pair's claims are missing or inconsistent")
  require (transactions.all (·.matchStatus = .unmatched))
    (.reviewState "one of the transactions is no longer unmatched")
  markAll (transactions.map (·.id))
  put (.resultStatus id .confirmed reviewer)
  let _ ← logger.append (reviewEvent result "MATCH_CONFIRM" reviewer
    (note.getD "confirmed without a note") "CONFIRMED" automated now)
  return result.judge .confirmed reviewer

def releaseClaims : List MatchClaim → Prog Unit
  | [] => return
  | c :: cs => do
    releaseClaim c
    releaseClaims cs

/-- `MatchReviewService.reject`. -/
def rejectMatch (logger : AuditLogger) (id : Id) (reviewer reason : String) (now : Instant) :
    Prog MatchResult := do
  let result ← lockPending id
  let d ← tables
  releaseClaims (d.activeClaims id)
  put (.resultStatus id .rejected reviewer)
  let _ ← logger.append (reviewEvent result "MATCH_REJECT" reviewer reason "REJECTED" false now)
  return result.judge .rejected reviewer

/-! ## What a decision does -/

theorem Db.release_release (ids ids' : List Id) (d : Db) :
    (d.release ids).release ids' = d.release (ids ++ ids') := by
  have h := Store.updateIn_updateIn (fun c : MatchClaim => c.id) ids ids'
    (fun c => { c with status := .released }) d.claims (fun _ => rfl) fun _ => rfl
  exact congrArg (fun cs => { d with claims := cs }) h

@[simp] theorem Db.release_no_ids (d : Db) : d.release [] = d := by
  simp only [Db.release, Db.updateClaim, Store.updateIn_no_ids]

theorem releaseClaims_spec : ∀ (cs : List MatchClaim) (s : Session),
    (releaseClaims cs).wp
      (fun _ s' => s'.view = s.view.release (cs.map (·.id)) ∧ s'.supply = s.supply)
      (fun _ _ => False) s
  | [], s => ⟨(Db.release_no_ids _).symm, rfl⟩
  | c :: cs, s => by
    simp only [releaseClaims, releaseClaim, bind_eq, wp_bind, wp_lockRow, wp_put]
    refine (releaseClaims_spec cs _).mono ?_ fun _ _ h => h
    rintro _ s' ⟨hview, hsupply⟩
    refine ⟨hview.trans ?_, hsupply⟩
    rw [Store.Session.view_write]
    exact Db.release_release [c.id] (cs.map (·.id)) s.view

/-- The entry of a decision can be hashed. -/
theorem reviewEvent_accepted (result : MatchResult) (action reviewer rationale after : String)
    (automated : Bool) (now : Instant) :
    (reviewEvent result action reviewer rationale after automated now).Accepted where
  actor := by
    cases automated
    · exact Or.inr rfl
    · exact Or.inl rfl
  aware := rfl
  affected := PyValue.accepted_dict (by simp)
  before := PyValue.accepted_dict (by simp)
  after := PyValue.accepted_dict (by simp)

section

variable {n : Nat} {d : Db} {s : Session} {logger : AuditLogger}

/-- A result is found under its identifier. -/
theorem Db.mem_of_result? {id : Id} {r : MatchResult} (h : d.result? id = some r) :
    r ∈ d.results ∧ r.id = id := by
  unfold Db.result? at h
  exact ⟨List.mem_of_find?_eq_some h, by simpa using List.find?_some h⟩

/-- An ACTIVE claim is among those that satisfy a condition exactly when it satisfies it. -/
theorem Ledger.mem_claim_ids (h : Ledger n d) {p : MatchClaim → Bool} {c : MatchClaim}
    (hc : c ∈ d.claims) : c.id ∈ (d.claims.filter p).map (·.id) ↔ p c = true := by
  constructor
  · intro hmem
    obtain ⟨c', hc', hid⟩ := List.mem_map.mp hmem
    obtain ⟨hin, hp⟩ := List.mem_filter.mp hc'
    rwa [Store.eq_of_key_eq h.claimIds hc hin hid.symm]
  · intro hp
    exact List.mem_map_of_mem (List.mem_filter.mpr ⟨hc, hp⟩)

/-- A decision starts from a row under review, read under its lock. -/
theorem lockPending_spec (id : Id) (s : Session) :
    (lockPending id).wp
      (fun r s' => s' = s ∧ r ∈ s.view.results ∧ r.id = id ∧ r.status = .pendingReview)
      (fun _ s' => s' = s) s := by
  unfold lockPending
  simp only [bind_eq, wp_bind, wp_lockRow, wp_tables]
  split
  · trivial
  · rename_i r hr
    split
    · rename_i hs
      obtain ⟨hmem, hid⟩ := Db.mem_of_result? hr
      exact ⟨rfl, hmem, hid, hs⟩
    · trivial

/-- A settled row is not the one that is under review. -/
theorem Ledger.not_mem_of_pending (h : Ledger n d) {r : MatchResult} (hr : r ∈ d.results)
    (hs : r.status = .pendingReview) {r' : MatchResult} (hr' : r' ∈ d.results)
    (hset : r'.Settled) : r'.id ∉ [r.id] := by
  intro hid
  rw [h.result_eq hr' hr (List.mem_singleton.mp hid)] at hset
  exact hset.ne_pending hs

/-- Confirming a match under review is a decision that fits. -/
theorem confirmMatch_spec (id : Id) (reviewer : String) (note : Option String) (automated : Bool)
    (now : Instant) (h : Ledger s.supply s.view) :
    (confirmMatch logger id reviewer note automated now).wp
      (fun _ s' => s.supply ≤ s'.supply ∧ ∃ x row, Decision.Fits x s.view ∧ x.status = .confirmed ∧
        x.ids = [id] ∧ s'.view = (RowWrite.insertAudit row).apply (s.view.decided x))
      (fun _ s' => s'.view = s.view ∧ s.supply ≤ s'.supply) s := by
  unfold confirmMatch
  rw [bind_eq, wp_bind]
  refine (lockPending_spec id s).mono ?_ fun _ s' hs' => by rw [hs']; exact ⟨rfl, Nat.le_refl _⟩
  rintro r s' ⟨rfl, hr, rfl, hpending⟩
  simp only [reviewTransactions, bind_eq, wp_bind, wp_lockRow, wp_tables, wp_require, pure_eq,
    wp_pure]
  split
  swap
  · exact ⟨trivial, Nat.le_refl _⟩
  split
  swap
  · exact ⟨trivial, Nat.le_refl _⟩
  split
  swap
  · exact ⟨trivial, Nat.le_refl _⟩
  refine (markAll_spec _ _).mono ?_ fun _ _ h => h.elim
  rintro _ s₁ ⟨hview, hsupply⟩
  refine (logger.append_accepted (reviewEvent_accepted _ _ _ _ _ _ _) _).mono ?_
    fun _ _ h => h.elim
  rintro row s₂ ⟨-, rfl⟩
  have hle : s'.supply ≤ s₁.supply + 1 := hsupply ▸ Nat.le_succ _
  refine ⟨hle, ⟨.confirmed, reviewer, [r.id], [], (s'.view.transactions.filter fun t =>
    t.id ∈ [r.internalTransactionId, r.externalTransactionId]).map (·.id)⟩, row, ?_, rfl, rfl, ?_⟩
  · have hts : ∀ t, r.Side t ↔ t ∈ (s'.view.transactions.filter fun t =>
        t.id ∈ [r.internalTransactionId, r.externalTransactionId]).map (·.id) := by
      intro t
      simp only [List.mem_map, List.mem_filter, decide_eq_true_eq, List.mem_cons, List.not_mem_nil,
        or_false]
      constructor
      · intro hside
        obtain ⟨row, hrow, rfl⟩ := h.sides r hr (by rw [hpending]; decide) t hside
        exact ⟨row, ⟨hrow, hside⟩, rfl⟩
      · rintro ⟨row, ⟨-, hside⟩, rfl⟩
        exact hside
    have heq : ∀ {r'}, r' ∈ s'.view.results → r'.id ∈ [r.id] → r' = r := fun hr' hid =>
      h.result_eq hr' hr (List.mem_singleton.mp hid)
    constructor
    case status => exact Or.inl rfl
    case pending => exact fun _ r' hr' hid => heq hr' hid ▸ hpending
    case whole => exact fun _ _ _ _ r' hr' hset _ => h.not_mem_of_pending hr hpending hr' hset
    case claims => simp
    case held =>
      intro t ht
      exact ⟨r, (h.parked r hr hpending).2 t ((hts t).mpr ht), List.mem_singleton_self _⟩
    case sides =>
      intro r' hid _ t ht
      obtain rfl := heq ht.1 hid
      exact (hts t).mp ((h.side_of_holds ht).2)
  · rw [Store.Session.view_write, Store.Session.view_take, Store.Session.view_write, hview]
    simp only [Db.decided, Db.release_no_ids, if_true]
    rfl

/-- So is rejecting one. -/
theorem rejectMatch_spec (id : Id) (reviewer reason : String) (now : Instant)
    (h : Ledger s.supply s.view) :
    (rejectMatch logger id reviewer reason now).wp
      (fun _ s' => s.supply ≤ s'.supply ∧ ∃ x row, Decision.Fits x s.view ∧ x.status = .rejected ∧
        x.ids = [id] ∧ (∀ r ∈ s.view.results, r.id = id → r.status = .pendingReview) ∧
        s'.view = (RowWrite.insertAudit row).apply (s.view.decided x))
      (fun _ s' => s'.view = s.view ∧ s.supply ≤ s'.supply) s := by
  unfold rejectMatch
  rw [bind_eq, wp_bind]
  refine (lockPending_spec id s).mono ?_ fun _ s' hs' => by rw [hs']; exact ⟨rfl, Nat.le_refl _⟩
  rintro r s' ⟨rfl, hr, rfl, hpending⟩
  simp only [bind_eq, wp_bind, wp_tables, pure_eq, wp_pure]
  refine (releaseClaims_spec _ _).mono ?_ fun _ _ h => h.elim
  rintro _ s₁ ⟨hview, hsupply⟩
  rw [wp_put]
  refine (logger.append_accepted (reviewEvent_accepted _ _ _ _ _ _ _) _).mono ?_
    fun _ _ h => h.elim
  rintro row s₂ ⟨-, rfl⟩
  have hle : s'.supply ≤ s₁.supply + 1 := hsupply ▸ Nat.le_succ _
  have heq : ∀ {r'}, r' ∈ s'.view.results → r'.id ∈ [r.id] → r' = r := fun hr' hid =>
    h.result_eq hr' hr (List.mem_singleton.mp hid)
  refine ⟨hle, ⟨.rejected, reviewer, [r.id], (s'.view.activeClaims r.id).map (·.id), []⟩, row, ?_,
    rfl, rfl, ?_, ?_⟩
  · constructor
    case status => exact Or.inr rfl
    case pending =>
      intro hs
      cases hs
    case whole => exact fun _ _ _ _ r' hr' hset _ => h.not_mem_of_pending hr hpending hr' hset
    case claims =>
      intro c hc ha
      rw [Db.activeClaims, h.mem_claim_ids hc]
      simp [ha]
    case held => exact fun t ht => absurd ht List.not_mem_nil
    case sides =>
      intro r' hid hor t ht
      rw [heq ht.1 hid] at hor
      rcases hor with hs | hset
      · cases hs
      · exact absurd hpending hset.ne_pending
  · exact fun r' hr' hid => heq hr' (List.mem_singleton.mpr hid) ▸ hpending
  · rw [Store.Session.view_write, Store.Session.view_take, Store.Session.view_write, hview]
    simp only [Db.decided, Db.setStatus_no_ids]
    rfl

end

end Recon
