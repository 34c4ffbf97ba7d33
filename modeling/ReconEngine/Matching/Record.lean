import ReconEngine.Matching.Claims
import ReconEngine.Audit.Logger

/-!
# Writing a match

Every one-to-one stage, the manual match and the auto-resolver write a pair in the same way once
they have decided on it: both claims, the result row, and the row's identifier in both claims.
The statuses of the two transactions follow, at a point that differs from stage to stage.

`Workable` is what a matching operation relies on while it works on its pools: the invariant of
the tables, with the statuses that are still to be written already counted in, and that none of
its transactions is VOIDED.

**The laws** (`recordPair_spec`, `recordBatch_spec`, `recordPair_workable`): a pair is written as a
whole or not at all, so is a batch, and both keep the pools workable with the statuses they owe.

**What they do not establish.** When the owed statuses are written. Each stage pays them at its own
point (`markAll_spec`).
-/

set_option autoImplicit false

namespace Recon

open Store (updateIn updateIn_append updateIn_of_not_mem)
open Store.Prog hiding pure bind

/-- Both claims, the result, and its identifier in the claims; `none` when a claim conflicts. -/
def recordPair (m : MatchColumns) : Prog (Option Id) := do
  match ← claimPair m.internalTransactionId m.externalTransactionId with
  | some [internalClaim, externalClaim] => do
    let id ← newId
    put (.insertResult { m with id := id })
    finalise internalClaim id
    finalise externalClaim id
    return some id
  | _ => return none

/-- The statuses of the transactions of a match that needs no review. -/
def markAll : List Id → Prog Unit
  | [] => return ()
  | t :: ts => do
    setMatchStatus t .matched
    markAll ts

/-- The same for a pair. -/
def markMatched (m : MatchColumns) : Prog Unit :=
  markAll [m.internalTransactionId, m.externalTransactionId]

/-- The result rows of several pairs, as one statement. -/
def insertResults : List MatchColumns → Prog (List MatchResult)
  | [] => return []
  | m :: ms => do
    let id ← newId
    let row : MatchResult := { m with id := id }
    put (.insertResult row)
    let rows ← insertResults ms
    return row :: rows

/-- The claims of both sides of some results. -/
def claimSides (rows : List MatchResult) : List ClaimSide :=
  rows.flatMap fun r =>
    [{ transaction := r.internalTransactionId, role := .internal, result := some r.id },
      { transaction := r.externalTransactionId, role := .external, result := some r.id }]

/-- Several pairs as two multi-row statements, the results and then all their claims. -/
def recordBatch (ms : List MatchColumns) : Prog (List MatchResult × List MatchClaim) := do
  let rows ← insertResults ms
  let claims ← insertClaims (claimSides rows)
  return (rows, claims)

/-- Who writes the audit trail of a run, and when. -/
structure Auditor where
  logger : AuditLogger
  now : Instant

/-- An entry in the audit trail, when there is one. -/
def auditIf (audit : Option Auditor) (event : Instant → AuditEvent) : Prog Unit :=
  match audit with
  | none => return ()
  | some a => do
    let _ ← a.logger.append (event a.now)

/-! ## What is written -/

section Work

variable {W : RowWrite → Prop} {m : MatchColumns}

/-- Recording a pair writes two claims and a result. -/
theorem recordPair_work (hclaim : ∀ c, W (.insertClaim c)) (hset : ∀ c r, W (.claimResult c r))
    (hresult : ∀ id, W (.insertResult { m with id := id })) : (recordPair m).Work W := by
  refine Work.bind (claimGroup_work hclaim _) fun claims => ?_
  split
  · exact Work.bind work_newId fun id => Work.bind (work_put.mpr (hresult id)) fun _ =>
      Work.bind (work_put.mpr (hset _ _)) fun _ => Work.bind (work_put.mpr (hset _ _)) fun _ =>
      work_pure _
  · exact work_pure _

theorem auditIf_work (audit : Option Auditor) {event : Instant → AuditEvent}
    (hW : ∀ now (row : AuditLog), row.chainId = (event now).chainId → W (.insertAudit row)) :
    (auditIf audit event).Work W := by
  cases audit with
  | none => exact work_pure _
  | some a =>
    refine Work.bind ((a.logger.append_chain_work _).weaken ?_) fun _ => work_pure _
    rintro _ ⟨row, rfl, hrow⟩
    exact hW a.now row hrow

theorem insertResults_work (ok : MatchColumns → Prop)
    (hresult : ∀ r : MatchResult, ok r.toMatchColumns → W (.insertResult r)) :
    ∀ ms : List MatchColumns, (∀ m ∈ ms, ok m) → (insertResults ms).Work W
  | [], _ => work_pure _
  | m :: ms, h => Work.bind work_newId fun id =>
      Work.bind (work_put.mpr (hresult { m with id := id } (h m List.mem_cons_self))) fun _ =>
      Work.bind (insertResults_work ok hresult ms fun m' hm => h m' (List.mem_cons_of_mem m hm))
        fun _ => work_pure _

theorem recordBatch_work (ok : MatchColumns → Prop) (hclaim : ∀ c, W (.insertClaim c))
    (hresult : ∀ r : MatchResult, ok r.toMatchColumns → W (.insertResult r))
    {ms : List MatchColumns} (h : ∀ m ∈ ms, ok m) : (recordBatch ms).Work W :=
  Work.bind (insertResults_work ok hresult ms h) fun _ =>
    Work.bind (insertClaims_work hclaim _) fun _ => work_pure _

theorem markAll_work (hW : ∀ t, W (.transactionStatus t .matched)) :
    ∀ ts : List Id, (markAll ts).Work W
  | [] => work_pure _
  | _ :: ts => Work.bind (setMatchStatus_work (hW _)) fun _ => markAll_work hW ts

end Work

/-! ## The rows of a pair -/

def MatchColumns.sides (m : MatchColumns) (result : Option Id) : List ClaimSide :=
  [{ transaction := m.internalTransactionId, role := .internal, result := result },
    { transaction := m.externalTransactionId, role := .external, result := result }]

/-- Finalising a claim that is not in the table before changes the new claims only. -/
theorem claimResult_record {d : Db} {n i : Nat} (hd : ∀ c ∈ d.claims, c.id < n)
    (rs : List MatchResult) (cs : List MatchClaim) (hi : n ≤ i) (r : Id) :
    (RowWrite.claimResult i r).apply (d.record rs cs) =
      d.record rs (updateIn (·.id) [i] (fun c => { c with matchResultId := some r }) cs) := by
  have hold : updateIn (·.id) [i]
      (fun c : MatchClaim => { c with matchResultId := some r }) d.claims = d.claims := by
    refine updateIn_of_not_mem fun old hmem hin => ?_
    exact Nat.not_lt.mpr hi (List.mem_singleton.mp hin ▸ hd old hmem)
  simp only [RowWrite.apply, Db.updateClaim, Db.record, updateIn_append, hold]

/-- Writing a pair adds its result and its two claims, or nothing when a side is not free. -/
theorem recordPair_spec (m : MatchColumns) (s : Session)
    (hclaims : ∀ c ∈ s.view.claims, c.id < s.supply) :
    (recordPair m).wp
      (fun out s' => s.supply ≤ s'.supply ∧ match out with
        | none => ¬ s.view.Free (m.sides none) ∧ s'.view = s.view
        | some id => s.view.Free (m.sides none) ∧ id = s.supply + 2 ∧ s'.supply = s.supply + 3 ∧
          s'.view = s.view.record [{ m with id := id }] (claimRows s.supply (m.sides (some id))))
      (fun _ _ => False) s := by
  rw [recordPair, bind_eq, wp_bind]
  refine (claimGroup_spec _ s).mono ?_ fun _ _ h => h
  rintro (_ | claims) s' ⟨hsupply, hout⟩
  · exact ⟨hsupply, hout⟩
  · obtain ⟨hfree, rfl, hview, hs⟩ := hout
    simp only [List.length_cons, List.length_nil] at hs
    have hle : s.supply ≤ s'.supply + 1 := Nat.le_succ_of_le hsupply
    simp only [claimRows, finalise, bind_eq, pure_eq, wp_bind, wp_newId, wp_put, wp_pure,
      Store.Session.view_write, Store.Session.view_take, Store.Session.supply_write,
      Store.Session.supply_take]
    refine ⟨hle, hfree, hs, by omega, ?_⟩
    have hinsert : RowWrite.apply (.insertResult { m with id := s'.supply }) s'.view =
        s.view.record [{ m with id := s'.supply }]
          (claimRows s.supply (m.sides none)) := by
      rw [hview]
      simp only [RowWrite.apply, Db.record, List.append_nil]
      rfl
    have hne : ¬ s.supply + 1 = s.supply := by omega
    have hne' : ¬ s.supply = s.supply + 1 := by omega
    rw [hinsert]
    simp only [claimRows, MatchColumns.sides]
    rw [claimResult_record hclaims _ _ (Nat.le_refl _)]
    simp only [updateIn, List.map_cons, List.map_nil, List.mem_singleton, if_true, hne,
      if_false]
    rw [claimResult_record hclaims _ _ (Nat.le_succ _)]
    simp only [updateIn, List.map_cons, List.map_nil, List.mem_singleton, if_true, hne',
      if_false]

/-- The rows of several pairs, with identifiers from `n` on. -/
def resultRows (n : Nat) : List MatchColumns → List MatchResult
  | [] => []
  | m :: ms => { m with id := n } :: resultRows (n + 1) ms

/-- The new results have new identifiers. -/
theorem mem_resultRows {r : MatchResult} : ∀ {n : Nat} {ms : List MatchColumns},
    r ∈ resultRows n ms → r.toMatchColumns ∈ ms ∧ n ≤ r.id ∧ r.id < n + ms.length
  | n, m :: ms, h => by
    rcases List.mem_cons.mp h with rfl | h
    · exact ⟨List.mem_cons_self, Nat.le_refl n, Nat.lt_add_of_pos_right (Nat.succ_pos _)⟩
    · obtain ⟨hm, hge, hlt⟩ := mem_resultRows h
      refine ⟨List.mem_cons_of_mem _ hm, Nat.le_of_succ_le hge, ?_⟩
      rw [List.length_cons, Nat.add_comm ms.length 1, ← Nat.add_assoc]
      exact hlt

theorem resultRows_nodup : ∀ (n : Nat) (ms : List MatchColumns),
    ((resultRows n ms).map (·.id)).Nodup
  | _, [] => List.nodup_nil
  | n, m :: ms => by
    rw [resultRows, List.map_cons, List.nodup_cons]
    refine ⟨fun hmem => ?_, resultRows_nodup (n + 1) ms⟩
    obtain ⟨r, hr, hid⟩ := List.mem_map.mp hmem
    exact Nat.ne_of_gt (mem_resultRows hr).2.1 hid

theorem flatMap_resultRows {β : Type} (f : MatchColumns → List β) :
    ∀ (n : Nat) (ms : List MatchColumns),
      ((resultRows n ms).flatMap fun r => f r.toMatchColumns) = ms.flatMap f
  | _, [] => rfl
  | n, m :: ms => congrArg (f m ++ ·) (flatMap_resultRows f (n + 1) ms)

theorem map_resultRows {β : Type} (f : MatchColumns → β) :
    ∀ (n : Nat) (ms : List MatchColumns),
      ((resultRows n ms).map fun r => f r.toMatchColumns) = ms.map f
  | _, [] => rfl
  | n, m :: ms => congrArg (f m :: ·) (map_resultRows f (n + 1) ms)

theorem length_resultRows : ∀ (n : Nat) (ms : List MatchColumns), (resultRows n ms).length = ms.length
  | _, [] => rfl
  | n, _ :: ms => congrArg (· + 1) (length_resultRows (n + 1) ms)

theorem transactions_claimSides (rows : List MatchResult) :
    (claimSides rows).map (·.transaction) =
      rows.flatMap fun r => [r.internalTransactionId, r.externalTransactionId] := by
  simp only [claimSides, List.map_flatMap, List.map_cons, List.map_nil]

theorem length_claimSides (rows : List MatchResult) :
    (claimSides rows).length = 2 * rows.length := by
  induction rows with
  | nil => rfl
  | cons r rows ih =>
    simp only [claimSides, List.flatMap_cons, List.length_append, List.length_cons,
      List.length_nil] at ih ⊢
    omega

/-- Results are inserted in their order. -/
theorem insertResults_spec : ∀ (ms : List MatchColumns) (s : Session),
    (insertResults ms).wp
      (fun rows s' => rows = resultRows s.supply ms ∧ s'.view = s.view.record rows [] ∧
        s'.supply = s.supply + ms.length)
      (fun _ _ => False) s
  | [], s => ⟨rfl, (Db.record_nil _).symm, rfl⟩
  | m :: ms, s => by
    simp only [insertResults, bind_eq, pure_eq, wp_bind, wp_newId, wp_put, wp_pure]
    refine (insertResults_spec ms _).mono ?_ fun _ _ h => h
    rintro rows s' ⟨rfl, hview, hsupply⟩
    refine ⟨rfl, hview.trans ?_, hsupply.trans ?_⟩
    · rw [Store.Session.view_write, Store.Session.view_take]
      simp only [RowWrite.apply, Db.record, List.append_nil, List.append_assoc,
        List.singleton_append, Store.Session.supply_write, Store.Session.supply_take]
    · simp only [Store.Session.supply_write, Store.Session.supply_take, List.length_cons]
      omega

/-- A batch succeeds exactly when all sides are free; then its results and claims are there. -/
theorem recordBatch_spec (ms : List MatchColumns) (s : Session) :
    (recordBatch ms).wp
      (fun out s' => out.1 = resultRows s.supply ms ∧ s.view.Free (claimSides out.1) ∧
        out.2 = claimRows (s.supply + ms.length) (claimSides out.1) ∧
        s'.view = s.view.record out.1 out.2 ∧ s'.supply = s.supply + 3 * ms.length)
      (fun _ s' => ¬ s.view.Free (claimSides (resultRows s.supply ms)) ∧ s.supply ≤ s'.supply) s := by
  rw [recordBatch, bind_eq, wp_bind]
  refine (insertResults_spec ms s).mono ?_ fun _ _ h => h.elim
  rintro rows s' ⟨rfl, hview, hsupply⟩
  rw [bind_eq, wp_bind]
  have hfree : s'.view.Free (claimSides (resultRows s.supply ms)) ↔
      s.view.Free (claimSides (resultRows s.supply ms)) := by
    rw [hview]
    simp only [Db.Free, Db.isClaimed, Db.record, List.append_nil]
  refine (insertClaims_spec _ s').mono ?_ ?_
  · rintro claims s'' ⟨hf, rfl, hview', hsupply'⟩
    refine ⟨rfl, hfree.mp hf, by rw [hsupply], ?_, ?_⟩
    · rw [hview', hview, hsupply, Db.record_record, List.append_nil, List.nil_append]
    · rw [hsupply', hsupply, length_claimSides, length_resultRows]
      omega
  · rintro e s'' ⟨hf, hsupply'⟩
    exact ⟨fun h => hf (hfree.mpr h), by omega⟩

/-- The rows of a pair are a new match. -/
theorem NewMatch.pair {n k : Nat} {d : Db} {r : MatchResult}
    (hr : r.id < n ∧ ∀ old ∈ d.results, old.id ≠ r.id) (hk : k + 2 ≤ n)
    (hclaims : ∀ c ∈ d.claims, c.id < k) (hfree : d.Free (r.sides none))
    (hi : d.Live r.internalTransactionId) (he : d.Live r.externalTransactionId)
    (hs : r.status ≠ .rejected) :
    NewMatch n d r.status [r] (claimRows k (r.sides (some r.id))) := by
  have hne : r.internalTransactionId ≠ r.externalTransactionId := by
    have := hfree.1
    simpa [MatchColumns.sides] using this
  have hrow : ∀ c ∈ claimRows k (r.sides (some r.id)),
      k ≤ c.id ∧ c.id < k + 2 ∧ c.status = .active ∧ c.matchResultId = some r.id ∧
        r.Side c.normalisedTransactionId := by
    intro c hc
    simp only [claimRows, MatchColumns.sides, List.mem_cons, List.not_mem_nil, or_false] at hc
    rcases hc with rfl | rfl
    · exact ⟨Nat.le_refl k, Nat.lt_add_of_pos_right (by decide), rfl, rfl, Or.inl rfl⟩
    · exact ⟨Nat.le_succ k, Nat.lt_succ_self (k + 1), rfl, rfl, Or.inr rfl⟩
  have hside : ∀ t, r.Side t → ∃ c ∈ claimRows k (r.sides (some r.id)),
      c.normalisedTransactionId = t ∧ c.matchResultId = some r.id := by
    rintro t (rfl | rfl)
    · exact ⟨_, List.mem_cons_self, rfl, rfl⟩
    · exact ⟨_, List.mem_cons_of_mem _ List.mem_cons_self, rfl, rfl⟩
  constructor
  case resultIds => exact List.nodup_singleton _
  case resultFresh => exact fun x hx => List.mem_singleton.mp hx ▸ hr
  case claimIds => simp [claimRows, MatchColumns.sides]
  case claimFresh =>
    intro c hc
    obtain ⟨hge, hlt, -⟩ := hrow c hc
    exact ⟨Nat.lt_of_lt_of_le hlt hk, fun old hold =>
      Nat.ne_of_lt (Nat.lt_of_lt_of_le (hclaims old hold) hge)⟩
  case distinct => simpa [claimRows, MatchColumns.sides] using hne
  case free =>
    intro c hc
    rcases (hrow c hc).2.2.2.2 with h | h
    · exact h ▸ hfree.2 _ List.mem_cons_self
    · exact h ▸ hfree.2 _ (List.mem_cons_of_mem _ List.mem_cons_self)
  case live =>
    intro c hc
    rcases (hrow c hc).2.2.2.2 with h | h
    · exact h ▸ hi
    · exact h ▸ he
  case active => exact fun c hc => (hrow c hc).2.2.1
  case stands => exact hs
  case status_eq => exact fun x hx => List.mem_singleton.mp hx ▸ rfl
  case owned =>
    exact fun c hc => ⟨r, List.mem_singleton_self r, (hrow c hc).2.2.2.1, (hrow c hc).2.2.2.2⟩
  case covered =>
    intro x hx t ht
    rw [List.mem_singleton.mp hx] at ht
    obtain ⟨c, hc, hct, hid⟩ := hside t ht
    exact ⟨c, hc, hct, r, List.mem_singleton_self r, hid, Or.inl (List.mem_singleton.mp hx).symm⟩
  case parked =>
    intro _ x hx
    rw [List.mem_singleton.mp hx]
    exact ⟨hne, hside⟩

/-! ## Working on pools -/

/-- The invariant holds once the statuses in `marks` are written, and no transaction of the pool
is VOIDED. -/
structure Workable (pool marks : List Id) (n : Nat) (d : Db) : Prop where
  ledger : Ledger n (d.setStatus .matched marks)
  live : ∀ t ∈ pool, d.Live t

theorem Db.Live.setStatus {d : Db} {t : Id} (h : d.Live t) (ids : List Id) :
    (d.setStatus .matched ids).Live t := by
  obtain ⟨row, hrow, rfl, hne⟩ := h
  refine ⟨_, List.mem_map_of_mem hrow, ?_⟩
  split
  · exact ⟨rfl, nofun⟩
  · exact ⟨rfl, hne⟩

/-- The statuses of a pair that are still to be written. -/
def MatchColumns.marks (m : MatchColumns) : List Id :=
  if m.status = .pendingReview then [] else [m.internalTransactionId, m.externalTransactionId]

namespace Workable

variable {pool marks : List Id} {n n' : Nat} {d d' : Db}

theorem mono (h : Workable pool marks n d) (hn : n ≤ n') : Workable pool marks n' d :=
  ⟨h.ledger.mono hn, h.live⟩

/-- Only the three tables matter. -/
theorem of_same (h : Workable pool marks n d) (ht : d'.transactions = d.transactions)
    (hr : d'.results = d.results) (hc : d'.claims = d.claims) : Workable pool marks n d' where
  ledger := by
    refine h.ledger.of_same ?_ hr hc
    simp only [Db.setStatus, Db.updateTransaction, ht]
  live t htp := by
    obtain ⟨row, hrow, hid⟩ := h.live t htp
    exact ⟨row, ht.symm ▸ hrow, hid⟩

/-- Writing statuses that were pending leaves the others pending. -/
theorem written {ids : List Id} (h : Workable pool (ids ++ marks) n d) :
    Workable pool marks n (d.setStatus .matched ids) where
  ledger := by
    rw [Db.setStatus_setStatus]
    exact h.ledger
  live t ht := (h.live t ht).setStatus ids

/-- Which statuses are pending matters, not in which order. -/
theorem congr_marks {marks' : List Id} (h : Workable pool marks n d)
    (hm : ∀ t, t ∈ marks ↔ t ∈ marks') : Workable pool marks' n d :=
  ⟨Db.setStatus_congr .matched d hm ▸ h.ledger, h.live⟩

/-- New rows of the pools keep them workable, with the statuses they owe. -/
theorem record {status : ResultStatus} {rs : List MatchResult} {cs : List MatchClaim}
    (h : Workable pool marks n d) (hn : NewMatch n (d.setStatus .matched marks) status rs cs) :
    Workable pool (marks ++ NewMatch.marks status cs) n (d.record rs cs) where
  ledger := by
    rw [← Db.setStatus_setStatus]
    exact h.ledger.record hn
  live := h.live

/-- The rows of a pair of the pools. -/
theorem pair {r : MatchResult} {k : Nat} (h : Workable pool marks n d)
    (hr : r.id < n ∧ ∀ old ∈ d.results, old.id ≠ r.id) (hk : k + 2 ≤ n)
    (hclaims : ∀ c ∈ d.claims, c.id < k) (hfree : d.Free (r.sides none))
    (hi : r.internalTransactionId ∈ pool) (he : r.externalTransactionId ∈ pool)
    (hs : r.status ≠ .rejected) :
    Workable pool (marks ++ r.marks) n (d.record [r] (claimRows k (r.sides (some r.id)))) :=
  h.record (NewMatch.pair (d := d.setStatus .matched marks) hr hk hclaims hfree
    ((h.live _ hi).setStatus marks) ((h.live _ he).setStatus marks) hs)

/-- The rows of several pairs of the pools. -/
theorem batch : ∀ {rows : List MatchResult} {marks : List Id} {k : Nat} {d : Db},
    Workable pool marks n d → (rows.map (·.id)).Nodup →
    (∀ r ∈ rows, r.id < n ∧ ∀ old ∈ d.results, old.id ≠ r.id) → k + 2 * rows.length ≤ n →
    (∀ c ∈ d.claims, c.id < k) → d.Free (claimSides rows) →
    (∀ r ∈ rows, r.internalTransactionId ∈ pool ∧ r.externalTransactionId ∈ pool ∧
      r.status ≠ .rejected) →
    Workable pool (marks ++ rows.flatMap (·.marks)) n
      (d.record rows (claimRows k (claimSides rows)))
  | [], marks, k, d, h, _, _, _, _, _, _ => by
    rw [List.flatMap_nil, List.append_nil]
    exact (Db.record_nil d).symm ▸ h
  | r :: rows, marks, k, d, h, hids, hfresh, hk, hclaims, hfree, hrows => by
    rw [List.map_cons, List.nodup_cons] at hids
    obtain ⟨hi, he, hs⟩ := hrows r List.mem_cons_self
    rw [List.length_cons] at hk
    -- The claims of the first pair, then those of the rest.
    have hsplit : claimRows k (claimSides (r :: rows)) =
        claimRows k (r.sides (some r.id)) ++ claimRows (k + 2) (claimSides rows) := rfl
    let ci : MatchClaim :=
      { id := k, normalisedTransactionId := r.internalTransactionId,
        matchResultId := some r.id, role := .internal, status := .active }
    let ce : MatchClaim :=
      { id := k + 1, normalisedTransactionId := r.externalTransactionId,
        matchResultId := some r.id, role := .external, status := .active }
    obtain ⟨hfi, hf⟩ := (d.free_cons _ _ ci rfl rfl).mp hfree
    obtain ⟨hfe, hf'⟩ := ((d.record [] [ci]).free_cons _ _ ce rfl rfl).mp hf
    rw [Db.record_record] at hf'
    have hpair : d.Free (r.sides none) := (d.free_cons _ _ ci rfl rfl).mpr
      ⟨hfi, List.nodup_singleton _, fun x hx => List.mem_singleton.mp hx ▸ hfe⟩
    have hfirst := h.pair (hfresh r List.mem_cons_self) (by omega) hclaims hpair hi he hs
    have hrest := hfirst.batch hids.2 (k := k + 2)
      (fun x hx => ⟨(hfresh x (List.mem_cons_of_mem r hx)).1, fun old hold => ?_⟩) (by omega)
      (fun c hc => ?_) hf' fun x hx => hrows x (List.mem_cons_of_mem r hx)
    · rw [hsplit, ← List.singleton_append, ← Db.record_record, List.singleton_append,
        List.flatMap_cons, ← List.append_assoc]
      exact hrest
    · rcases List.mem_append.mp hold with hold | hold
      · exact (hfresh x (List.mem_cons_of_mem r hx)).2 old hold
      · rw [List.mem_singleton.mp hold]
        exact fun heq => hids.1 (heq ▸ List.mem_map_of_mem hx)
    · rcases List.mem_append.mp hc with hc | hc
      · exact Nat.lt_add_right 2 (hclaims c hc)
      · simp only [claimRows, MatchColumns.sides, List.mem_cons, List.not_mem_nil, or_false] at hc
        rcases hc with rfl | rfl
        · exact Nat.lt_add_of_pos_right (by decide)
        · exact Nat.lt_succ_self (k + 1)

end Workable

/-- Writing a pair of the pools keeps them workable; its statuses become pending. -/
theorem recordPair_workable {m : MatchColumns} {s : Session} {pool marks : List Id}
    (h : Workable pool marks s.supply s.view) (hi : m.internalTransactionId ∈ pool)
    (he : m.externalTransactionId ∈ pool) (hs : m.status ≠ .rejected) :
    (recordPair m).wp
      (fun out s' => match out with
        | none => Workable pool marks s'.supply s'.view
        | some _ => Workable pool (marks ++ m.marks) s'.supply s'.view)
      (fun _ _ => False) s := by
  refine (recordPair_spec m s h.ledger.claimBelow).mono ?_ fun _ _ h => h
  rintro (_ | id) s' ⟨hsupply, hout⟩
  · obtain ⟨-, hview⟩ := hout
    exact hview ▸ h.mono hsupply
  · obtain ⟨hfree, rfl, hs', hview⟩ := hout
    rw [hview, hs']
    refine (h.mono (Nat.le_add_right _ 3)).pair (r := { m with id := s.supply + 2 })
      ⟨Nat.lt_succ_self _, fun old hold => ?_⟩ (Nat.le_succ _) h.ledger.claimBelow hfree hi he hs
    exact Nat.ne_of_lt (Nat.lt_of_lt_of_le (h.ledger.resultBelow old hold) (Nat.le_add_right _ 2))

/-- Pending statuses are written. -/
theorem markAll_spec : ∀ (ts : List Id) (s : Session),
    (markAll ts).wp (fun _ s' => s'.view = s.view.setStatus .matched ts ∧ s'.supply = s.supply)
      (fun _ _ => False) s
  | [], s => ⟨(Db.setStatus_no_ids _ _).symm, rfl⟩
  | t :: ts, s => by
    simp only [markAll, setMatchStatus, bind_eq, wp_bind, wp_lockRow, wp_put]
    refine (markAll_spec ts _).mono ?_ fun _ _ h => h
    rintro _ s' ⟨hview, hsupply⟩
    refine ⟨hview.trans ?_, hsupply⟩
    rw [Store.Session.view_write]
    exact Db.setStatus_setStatus .matched [t] ts s.view

/-- Writing the statuses pays what is owed. -/
theorem markAll_workable {ts : List Id} {s : Session} {pool marks : List Id}
    (h : Workable pool (ts ++ marks) s.supply s.view) :
    (markAll ts).wp (fun _ s' => Workable pool marks s'.supply s'.view) (fun _ _ => False) s := by
  refine (markAll_spec ts s).mono ?_ fun _ _ h => h
  rintro _ s' ⟨hview, hsupply⟩
  rw [hview, hsupply]
  exact h.written

theorem markMatched_workable {m : MatchColumns} {s : Session} {pool marks : List Id}
    (h : Workable pool ([m.internalTransactionId, m.externalTransactionId] ++ marks)
      s.supply s.view) :
    (markMatched m).wp (fun _ s' => Workable pool marks s'.supply s'.view) (fun _ _ => False) s :=
  markAll_workable h

/-- An audit entry does not touch the matching tables. -/
theorem append_workable {logger : AuditLogger} {e : AuditEvent} {s : Session}
    {pool marks : List Id} (h : Workable pool marks s.supply s.view) :
    (logger.append e).wp (fun _ s' => Workable pool marks s'.supply s'.view)
      (fun _ _ => True) s := by
  refine (logger.append_spec e s).mono ?_ fun _ _ _ => trivial
  rintro row s' ⟨-, -, -, rfl⟩
  rw [Store.Session.view_write]
  exact (h.mono (Nat.le_succ _)).of_same rfl rfl rfl

theorem auditIf_workable {audit : Option Auditor} {event : Instant → AuditEvent} {s : Session}
    {pool marks : List Id} (h : Workable pool marks s.supply s.view) :
    (auditIf audit event).wp (fun _ s' => Workable pool marks s'.supply s'.view)
      (fun _ _ => True) s := by
  cases audit with
  | none => exact h
  | some a => exact wp_bind.mpr (append_workable h)

/-! ## Counting reviews -/

/-- How many results wait for a review. -/
def Db.pendingReviews (d : Db) : Nat := d.results.countP (·.status = .pendingReview)

/-- `k` results wait for a review, and the identifiers of the claims are used ones. -/
structure Reviews (k : Nat) (s : Session) : Prop where
  below : ∀ c ∈ s.view.claims, c.id < s.supply
  count : s.view.pendingReviews = k

theorem Reviews.of_same {k : Nat} {s s' : Session} (h : Reviews k s) (hsupply : s.supply ≤ s'.supply)
    (hresults : s'.view.results = s.view.results) (hclaims : s'.view.claims = s.view.claims) :
    Reviews k s' where
  below c hc := Nat.lt_of_lt_of_le (h.below c (hclaims ▸ hc)) hsupply
  count := by
    rw [← h.count, Db.pendingReviews, Db.pendingReviews, hresults]

/-- New results and claims. -/
theorem Reviews.record {k : Nat} {s s' : Session} {rs : List MatchResult} {cs : List MatchClaim}
    (h : Reviews k s) (hsupply : s.supply ≤ s'.supply) (hview : s'.view = s.view.record rs cs)
    (hbelow : ∀ c ∈ cs, c.id < s'.supply) :
    Reviews (k + rs.countP (·.status = .pendingReview)) s' where
  below c hc := by
    rw [hview] at hc
    rcases List.mem_append.mp hc with hc | hc
    · exact Nat.lt_of_lt_of_le (h.below c hc) hsupply
    · exact hbelow c hc
  count := by
    rw [← h.count, Db.pendingReviews, hview]
    exact List.countP_append

theorem recordPair_reviews {m : MatchColumns} {s : Session} {k : Nat} (h : Reviews k s) :
    (recordPair m).wp
      (fun out s' => Reviews (k + if out.isSome ∧ m.status = .pendingReview then 1 else 0) s')
      (fun _ _ => False) s := by
  refine (recordPair_spec m s h.below).mono ?_ fun _ _ h => h
  rintro (_ | id) s' ⟨hsupply, hout⟩
  · have hview := hout.2
    simpa using h.of_same hsupply (by rw [hview]) (by rw [hview])
  · obtain ⟨-, -, hs', hview⟩ := hout
    have hlast : s.supply + (m.sides (some id)).length ≤ s'.supply := by
      show s.supply + 2 ≤ s'.supply
      omega
    have hnow := h.record hsupply hview fun c hc => Nat.lt_of_lt_of_le (mem_claimRows hc).2.1 hlast
    simpa [List.countP_cons] using hnow

theorem markAll_reviews {ts : List Id} {s : Session} {k : Nat} (h : Reviews k s) :
    (markAll ts).wp (fun _ s' => Reviews k s') (fun _ _ => False) s := by
  refine (markAll_spec ts s).mono ?_ fun _ _ h => h
  rintro _ s' ⟨hview, hsupply⟩
  exact h.of_same (Nat.le_of_eq hsupply.symm) (by rw [hview]; rfl) (by rw [hview]; rfl)

end Recon
