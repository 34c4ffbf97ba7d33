import ReconEngine.Model.Tables

/-!
# Claims, results and statuses

The three tables that every matching operation writes, and what has to hold between them.
`Consistent` is what a reader of the tables may expect; `Ledger` is what the operations keep, and
it says more: which claim stands behind each side of a settled match, and that every row
identifier is below the next unused one.

The operations change the tables in five ways: a new match is recorded, a match under review is
confirmed or rejected, a match is undone, and a duplicate is voided. There is one lemma for each.

**The laws** (`Ledger.consistent`, `Ledger.record`, `Ledger.decided`, `Ledger.void`,
`Ledger.insertTransaction`): the invariant gives a reader what it expects, and each change keeps it
where its own condition holds. A condition is a structure (`NewMatch`, `Decision`), so that an
operation is checked once, where it builds one.

**What it does not establish.** That an operation meets its condition: each operation's own module
does, and `Histories.Soundness` puts them together.
-/

set_option autoImplicit false

namespace Recon

open Store

/-- The transaction is a side of the match. -/
def MatchResult.Side (r : MatchResult) (t : Id) : Prop :=
  t = r.internalTransactionId ∨ t = r.externalTransactionId

/-- The match stands: it was made automatically or confirmed. -/
def MatchResult.Settled (r : MatchResult) : Prop :=
  r.status = .autoMatched ∨ r.status = .confirmed

instance (r : MatchResult) : Decidable r.Settled := inferInstanceAs (Decidable (_ ∨ _))

/-- The rows record the same match: they are one row, or rows of one group. -/
def MatchResult.SameMatch (r r' : MatchResult) : Prop :=
  r = r' ∨ r.matchGroupId ≠ none ∧ r.matchGroupId = r'.matchGroupId

theorem MatchResult.SameMatch.symm {a b : MatchResult} (h : a.SameMatch b) : b.SameMatch a := by
  rcases h with rfl | ⟨hne, heq⟩
  · exact Or.inl rfl
  · exact Or.inr ⟨heq ▸ hne, heq.symm⟩

theorem MatchResult.SameMatch.trans {a b c : MatchResult} (h : a.SameMatch b)
    (h' : b.SameMatch c) : a.SameMatch c := by
  rcases h with rfl | ⟨hne, heq⟩
  · exact h'
  · rcases h' with rfl | ⟨-, heq'⟩
    · exact Or.inr ⟨hne, heq⟩
    · exact Or.inr ⟨hne, heq.trans heq'⟩

/-- The row with a reviewer's decision. -/
def MatchResult.judge (status : ResultStatus) (reviewer : String) (r : MatchResult) : MatchResult :=
  { r with status := status, reviewedBy := some reviewer }

namespace Db

/-- `ClaimsService.is_claimed`. -/
def isClaimed (d : Db) (t : Id) : Bool :=
  d.claims.any fun c => c.normalisedTransactionId == t && c.status == .active

/-- The transaction holds an ACTIVE claim of the result. -/
def Holds (d : Db) (t : Id) (r : MatchResult) : Prop :=
  r ∈ d.results ∧ ∃ c ∈ d.claims,
    c.status = .active ∧ c.normalisedTransactionId = t ∧ c.matchResultId = some r.id

/-- The transaction exists and is not VOIDED. -/
def Live (d : Db) (t : Id) : Prop :=
  ∃ row ∈ d.transactions, row.id = t ∧ row.matchStatus ≠ .voided

/-- New match results with their claims. -/
def record (rs : List MatchResult) (cs : List MatchClaim) (d : Db) : Db :=
  { d with results := d.results ++ rs, claims := d.claims ++ cs }

/-- The transactions in `ids` with the status `status`. -/
def setStatus (status : MatchStatus) (ids : List Id) (d : Db) : Db :=
  d.updateTransaction ids fun t => { t with matchStatus := status }

/-- The results in `ids` with the reviewer's decision. -/
def setResultStatus (status : ResultStatus) (reviewer : String) (ids : List Id) (d : Db) : Db :=
  d.updateResult ids (·.judge status reviewer)

/-- The claims in `ids` released. -/
def release (ids : List Id) (d : Db) : Db :=
  d.updateClaim ids fun c => { c with status := .released }

/-- A transaction is unclaimed when no ACTIVE claim is for it. -/
theorem isClaimed_eq_false {d : Db} {t : Id} :
    d.isClaimed t = false ↔
      ∀ c ∈ d.claims, c.status = .active → c.normalisedTransactionId ≠ t := by
  simp only [isClaimed, List.any_eq_false, Bool.and_eq_true, beq_iff_eq, not_and]
  exact ⟨fun h c hc ha ht => h c hc ht ha, fun h c hc ht ha => h c hc ha ht⟩

theorem isClaimed_eq_true {d : Db} {t : Id} :
    d.isClaimed t = true ↔
      ∃ c ∈ d.claims, c.status = .active ∧ c.normalisedTransactionId = t := by
  simp only [isClaimed, List.any_eq_true, Bool.and_eq_true, beq_iff_eq, and_comm]

theorem Holds.isClaimed {d : Db} {t : Id} {r : MatchResult} (h : d.Holds t r) :
    d.isClaimed t = true := by
  obtain ⟨-, c, hc, ha, ht, -⟩ := h
  exact isClaimed_eq_true.mpr ⟨c, hc, ha, ht⟩

@[simp] theorem record_nil (d : Db) : d.record [] [] = d := by
  simp only [record, List.append_nil]

theorem record_record (rs rs' : List MatchResult) (cs cs' : List MatchClaim) (d : Db) :
    (d.record rs cs).record rs' cs' = d.record (rs ++ rs') (cs ++ cs') := by
  simp only [record, List.append_assoc]

theorem isClaimed_record (rs : List MatchResult) {cs : List MatchClaim} {d : Db} {t : Id}
    (ht : t ∉ cs.map (·.normalisedTransactionId)) :
    (d.record rs cs).isClaimed t = d.isClaimed t := by
  have hnew : (cs.any fun c => c.normalisedTransactionId == t && c.status == .active) = false := by
    rw [List.any_eq_false]
    intro c hc hct
    rw [Bool.and_eq_true, beq_iff_eq] at hct
    exact ht (List.mem_map.mpr ⟨c, hc, hct.1⟩)
  simp only [isClaimed, record, List.any_append, hnew, Bool.or_false]

@[simp] theorem setStatus_no_ids (status : MatchStatus) (d : Db) : d.setStatus status [] = d := by
  simp only [setStatus, updateTransaction, updateIn_no_ids]

theorem setStatus_setStatus (status : MatchStatus) (ids ids' : List Id) (d : Db) :
    (d.setStatus status ids).setStatus status ids' = d.setStatus status (ids ++ ids') := by
  have h := updateIn_updateIn (fun t : NormalisedTransaction => t.id) ids ids'
    (fun t => { t with matchStatus := status }) d.transactions (fun _ => rfl) fun _ => rfl
  exact congrArg (fun ts => { d with transactions := ts }) h

/-- Only which transactions are named matters. -/
theorem setStatus_congr (status : MatchStatus) {ids ids' : List Id} (d : Db)
    (h : ∀ t, t ∈ ids ↔ t ∈ ids') : d.setStatus status ids = d.setStatus status ids' := by
  simp only [setStatus, updateTransaction, updateIn, h]

/-- A row after statuses were written was there before. -/
theorem mem_setStatus {status : MatchStatus} {ids : List Id} {d : Db}
    {row : NormalisedTransaction} (h : row ∈ (d.setStatus status ids).transactions) :
    ∃ old ∈ d.transactions, old.id = row.id ∧
      row.matchStatus = if old.id ∈ ids then status else old.matchStatus := by
  obtain ⟨old, hold, rfl⟩ := mem_updateIn.mp h
  refine ⟨old, hold, ?_⟩
  by_cases hid : old.id ∈ ids
  · simp only [hid, if_true, and_self]
  · simp only [hid, if_false, and_self]

/-- The claims that are still ACTIVE after some were released. -/
theorem mem_release {ids : List Id} {d : Db} {c : MatchClaim} :
    c ∈ (d.release ids).claims ∧ c.status = .active ↔
      c ∈ d.claims ∧ c.status = .active ∧ c.id ∉ ids := by
  constructor
  · rintro ⟨hc, ha⟩
    obtain ⟨old, hold, rfl⟩ := mem_updateIn.mp hc
    by_cases hid : old.id ∈ ids
    · rw [if_pos hid] at ha
      cases ha
    · rw [if_neg hid] at ha ⊢
      exact ⟨hold, ha, hid⟩
  · rintro ⟨hc, ha, hid⟩
    exact ⟨mem_updateIn.mpr ⟨c, hc, if_neg hid⟩, ha⟩

theorem setStatus_transaction_ids (status : MatchStatus) (ids : List Id) (d : Db) :
    (d.setStatus status ids).transactions.map (·.id) = d.transactions.map (·.id) :=
  map_updateIn fun _ => rfl

theorem mem_setStatus_ids {status : MatchStatus} {ids : List Id} {d : Db} {t : Id}
    (h : ∃ row ∈ d.transactions, row.id = t) :
    ∃ row ∈ (d.setStatus status ids).transactions, row.id = t := by
  have hmem : t ∈ d.transactions.map (·.id) := List.mem_map.mpr h
  rw [← setStatus_transaction_ids status ids] at hmem
  exact List.mem_map.mp hmem

theorem setResultStatus_ids (status : ResultStatus) (reviewer : String) (ids : List Id) (d : Db) :
    (d.setResultStatus status reviewer ids).results.map (·.id) = d.results.map (·.id) :=
  map_updateIn fun _ => rfl

theorem release_ids (ids : List Id) (d : Db) :
    (d.release ids).claims.map (·.id) = d.claims.map (·.id) :=
  map_updateIn fun _ => rfl

end Db

/-! ## What a reader may expect -/

/-- The tables agree: claims are exclusive and belong to a match that stands or is under review,
and the statuses of the transactions say which. -/
structure Consistent (d : Db) : Prop where
  /-- A transaction has at most one ACTIVE claim. -/
  oneClaim : ∀ t, (d.claims.filter fun c =>
    c.normalisedTransactionId = t ∧ c.status = .active).length ≤ 1
  /-- An ACTIVE claim belongs to a match that was not rejected, and claims one of its sides. -/
  owned : ∀ c ∈ d.claims, c.status = .active → ∃ r ∈ d.results, c.matchResultId = some r.id ∧
    (r.status = .autoMatched ∨ r.status = .confirmed ∨ r.status = .pendingReview) ∧
    (c.normalisedTransactionId = r.internalTransactionId ∨
      c.normalisedTransactionId = r.externalTransactionId)
  /-- MATCHED is the status of exactly the transactions that a settled match claims. -/
  matched : ∀ t ∈ d.transactions, t.matchStatus = .matched ↔
    ∃ c ∈ d.claims, c.status = .active ∧ c.normalisedTransactionId = t.id ∧
      ∃ r ∈ d.results, c.matchResultId = some r.id ∧
        (r.status = .autoMatched ∨ r.status = .confirmed)
  /-- Both sides of a match under review are UNMATCHED and hold its two ACTIVE claims. -/
  pending : ∀ r ∈ d.results, r.status = .pendingReview →
    (∃ t ∈ d.transactions, t.id = r.internalTransactionId ∧ t.matchStatus = .unmatched) ∧
    (∃ t ∈ d.transactions, t.id = r.externalTransactionId ∧ t.matchStatus = .unmatched) ∧
    ∃ ci ce, ci ≠ ce ∧ ci.normalisedTransactionId = r.internalTransactionId ∧
      ce.normalisedTransactionId = r.externalTransactionId ∧
      ∀ c, (c ∈ d.claims ∧ c.status = .active ∧ c.matchResultId = some r.id) ↔ (c = ci ∨ c = ce)
  /-- A rejected match holds no ACTIVE claim. -/
  rejected : ∀ r ∈ d.results, r.status = .rejected → ∀ c ∈ d.claims, c.status = .active →
    c.matchResultId ≠ some r.id
  /-- A VOIDED transaction holds no ACTIVE claim. -/
  voided : ∀ t ∈ d.transactions, t.matchStatus = .voided → ∀ c ∈ d.claims, c.status = .active →
    c.normalisedTransactionId ≠ t.id

/-! ## What the operations keep -/

/-- The invariant of the matching tables, every row identifier being below `n`. -/
structure Ledger (n : Nat) (d : Db) : Prop where
  transactionIds : (d.transactions.map (·.id)).Nodup
  transactionBelow : ∀ t ∈ d.transactions, t.id < n
  resultIds : (d.results.map (·.id)).Nodup
  resultBelow : ∀ r ∈ d.results, r.id < n
  claimIds : (d.claims.map (·.id)).Nodup
  claimBelow : ∀ c ∈ d.claims, c.id < n
  exclusive : ∀ c ∈ d.claims, c.status = .active → ∀ c' ∈ d.claims, c'.status = .active →
    c.normalisedTransactionId = c'.normalisedTransactionId → c = c'
  owned : ∀ c ∈ d.claims, c.status = .active → ∃ r ∈ d.results, c.matchResultId = some r.id ∧
    r.status ≠ .rejected ∧ r.Side c.normalisedTransactionId
  covered : ∀ r ∈ d.results, r.Settled → ∀ t, r.Side t →
    ∃ r', d.Holds t r' ∧ r'.Settled ∧ r'.SameMatch r
  parked : ∀ r ∈ d.results, r.status = .pendingReview →
    r.internalTransactionId ≠ r.externalTransactionId ∧ ∀ t, r.Side t → d.Holds t r
  sides : ∀ r ∈ d.results, r.status ≠ .rejected → ∀ t, r.Side t →
    ∃ row ∈ d.transactions, row.id = t
  matched : ∀ row ∈ d.transactions, row.matchStatus = .matched ↔ ∃ r, d.Holds row.id r ∧ r.Settled
  notClaimed : ∀ row ∈ d.transactions, row.matchStatus ≠ .claimed
  voided : ∀ row ∈ d.transactions, row.matchStatus = .voided → d.isClaimed row.id = false

/-- A match stands, is under review, or was rejected. -/
theorem MatchResult.status_cases (r : MatchResult) :
    r.Settled ∨ r.status = .pendingReview ∨ r.status = .rejected := by
  unfold Settled
  cases r.status <;> simp

theorem MatchResult.Settled.ne_rejected {r : MatchResult} (h : r.Settled) :
    r.status ≠ .rejected := by
  rcases h with h | h <;> rw [h] <;> decide

theorem MatchResult.Settled.ne_pending {r : MatchResult} (h : r.Settled) :
    r.status ≠ .pendingReview := by
  rcases h with h | h <;> rw [h] <;> decide

namespace Ledger

variable {n n' : Nat} {d d' : Db}

/-- The invariant does not depend on identifiers that are not used yet. -/
theorem mono (h : Ledger n d) (hn : n ≤ n') : Ledger n' d :=
  { h with
    transactionBelow := fun t ht => Nat.lt_of_lt_of_le (h.transactionBelow t ht) hn
    resultBelow := fun r hr => Nat.lt_of_lt_of_le (h.resultBelow r hr) hn
    claimBelow := fun c hc => Nat.lt_of_lt_of_le (h.claimBelow c hc) hn }

/-- The invariant is about three tables only. -/
theorem of_same (h : Ledger n d) (ht : d'.transactions = d.transactions)
    (hr : d'.results = d.results) (hc : d'.claims = d.claims) : Ledger n d' := by
  obtain ⟨ts, rs, cs⟩ := d'
  dsimp only at ht hr hc
  subst ht hr hc
  exact ⟨h.1, h.2, h.3, h.4, h.5, h.6, h.7, h.8, h.9, h.10, h.11, h.12, h.13, h.14⟩

/-- A result is known by its identifier. -/
theorem result_eq (h : Ledger n d) {r r' : MatchResult} (hr : r ∈ d.results) (hr' : r' ∈ d.results)
    (hid : r.id = r'.id) : r = r' :=
  eq_of_key_eq h.resultIds hr hr' hid

/-- A transaction is known by its identifier. -/
theorem transaction_eq (h : Ledger n d) {t t' : NormalisedTransaction} (ht : t ∈ d.transactions)
    (ht' : t' ∈ d.transactions) (hid : t.id = t'.id) : t = t' :=
  eq_of_key_eq h.transactionIds ht ht' hid

/-- A claimed transaction holds a claim of exactly one result, and is a side of it. -/
theorem holds_of_isClaimed (h : Ledger n d) {t : Id} (ht : d.isClaimed t = true) :
    ∃ r, d.Holds t r ∧ r.status ≠ .rejected ∧ r.Side t := by
  obtain ⟨c, hc, ha, rfl⟩ := Db.isClaimed_eq_true.mp ht
  obtain ⟨r, hr, hid, hne, hside⟩ := h.owned c hc ha
  exact ⟨r, ⟨hr, c, hc, ha, rfl, hid⟩, hne, hside⟩

/-- A transaction holds claims of one result only. -/
theorem holds_unique (h : Ledger n d) {t : Id} {r r' : MatchResult} (hr : d.Holds t r)
    (hr' : d.Holds t r') : r = r' := by
  obtain ⟨hmem, c, hc, ha, ht, hid⟩ := hr
  obtain ⟨hmem', c', hc', ha', ht', hid'⟩ := hr'
  have hcc := h.exclusive c hc ha c' hc' ha' (ht.trans ht'.symm)
  subst hcc
  exact h.result_eq hmem hmem' (Option.some.inj (hid.symm.trans hid'))

/-- A transaction holds claims of its own matches only, and of none that was rejected. -/
theorem side_of_holds (h : Ledger n d) {r : MatchResult} {t : Id} (ht : d.Holds t r) :
    r.status ≠ .rejected ∧ r.Side t := by
  obtain ⟨y, hy, hs, hside⟩ := h.holds_of_isClaimed ht.isClaimed
  obtain rfl := h.holds_unique ht hy
  exact ⟨hs, hside⟩

/-- The invariant gives a reader what it expects. -/
theorem consistent (h : Ledger n d) : Consistent d where
  oneClaim t := by
    have hnodup : (d.claims.filter fun c =>
        decide (c.normalisedTransactionId = t ∧ c.status = .active)).Nodup :=
      (List.Nodup.of_map _ h.claimIds).filter _
    rcases hf : d.claims.filter fun c =>
        decide (c.normalisedTransactionId = t ∧ c.status = .active) with _ | ⟨c, _ | ⟨c', rest⟩⟩
    · rw [hf]
      exact Nat.zero_le 1
    · rw [hf]
      exact Nat.le_refl 1
    · have hmem : ∀ x ∈ c :: c' :: rest,
          x ∈ d.claims ∧ x.normalisedTransactionId = t ∧ x.status = .active := by
        intro x hx
        rw [← hf] at hx
        simpa only [List.mem_filter, decide_eq_true_eq] using hx
      obtain ⟨hc, ht, ha⟩ := hmem c (by simp)
      obtain ⟨hc', ht', ha'⟩ := hmem c' (by simp)
      have heq := h.exclusive c hc ha c' hc' ha' (ht.trans ht'.symm)
      rw [hf, heq] at hnodup
      simp at hnodup
  owned c hc ha := by
    obtain ⟨r, hr, hid, hne, hside⟩ := h.owned c hc ha
    refine ⟨r, hr, hid, ?_, hside⟩
    rcases r.status_cases with (hs | hs) | hs | hs
    · exact Or.inl hs
    · exact Or.inr (Or.inl hs)
    · exact Or.inr (Or.inr hs)
    · exact absurd hs hne
  matched t ht := by
    rw [h.matched t ht]
    constructor
    · rintro ⟨r, ⟨hr, c, hc, ha, hct, hid⟩, hs⟩
      exact ⟨c, hc, ha, hct, r, hr, hid, hs⟩
    · rintro ⟨c, hc, ha, hct, r, hr, hid, hs⟩
      exact ⟨r, ⟨hr, c, hc, ha, hct, hid⟩, hs⟩
  pending r hr hs := by
    obtain ⟨hdistinct, hholds⟩ := h.parked r hr hs
    -- A side is UNMATCHED: its one claim is of a match under review.
    have hunmatched : ∀ t, r.Side t → ∃ row ∈ d.transactions, row.id = t ∧
        row.matchStatus = .unmatched := by
      intro t ht
      obtain ⟨row, hrow, rfl⟩ := h.sides r hr (by rw [hs]; decide) t ht
      refine ⟨row, hrow, rfl, ?_⟩
      cases hst : row.matchStatus with
      | unmatched => rfl
      | claimed => exact absurd hst (h.notClaimed row hrow)
      | matched =>
        obtain ⟨r', hr', hset⟩ := (h.matched row hrow).mp hst
        exact absurd hs (h.holds_unique hr' (hholds _ ht) ▸ hset).ne_pending
      | voided =>
        have hfree := h.voided row hrow hst
        rw [(hholds _ ht).isClaimed] at hfree
        cases hfree
    obtain ⟨-, ci, hci, hai, hti, hidi⟩ := hholds _ (Or.inl rfl)
    obtain ⟨-, ce, hce, hae, hte, hide⟩ := hholds _ (Or.inr rfl)
    refine ⟨hunmatched _ (Or.inl rfl), hunmatched _ (Or.inr rfl), ci, ce, ?_, hti, hte, ?_⟩
    · intro heq
      exact hdistinct (hti.symm.trans ((congrArg (·.normalisedTransactionId) heq).trans hte))
    · intro c
      constructor
      · rintro ⟨hc, ha, hid⟩
        obtain ⟨r', hr', hid', -, hside⟩ := h.owned c hc ha
        have hrr := h.result_eq hr' hr (Option.some.inj (hid'.symm.trans hid))
        subst hrr
        rcases hside with ht | ht
        · exact Or.inl (h.exclusive c hc ha ci hci hai (ht.trans hti.symm))
        · exact Or.inr (h.exclusive c hc ha ce hce hae (ht.trans hte.symm))
      · rintro (rfl | rfl)
        · exact ⟨hci, hai, hidi⟩
        · exact ⟨hce, hae, hide⟩
  rejected r hr hs c hc ha hid := by
    obtain ⟨r', hr', hid', hne, -⟩ := h.owned c hc ha
    exact hne (h.result_eq hr' hr (Option.some.inj (hid'.symm.trans hid)) ▸ hs)
  voided t ht hs := Db.isClaimed_eq_false.mp (h.voided t ht hs)

end Ledger

/-! ## Recording a match -/

/-- The rows of a new match of status `status`: its results and claims have new identifiers below
`n`, its claims take free transactions that exist and are not VOIDED, and every side of every
result has its claim. -/
structure NewMatch (n : Nat) (d : Db) (status : ResultStatus) (rs : List MatchResult)
    (cs : List MatchClaim) : Prop where
  resultIds : (rs.map (·.id)).Nodup
  resultFresh : ∀ r ∈ rs, r.id < n ∧ ∀ old ∈ d.results, old.id ≠ r.id
  claimIds : (cs.map (·.id)).Nodup
  claimFresh : ∀ c ∈ cs, c.id < n ∧ ∀ old ∈ d.claims, old.id ≠ c.id
  distinct : (cs.map (·.normalisedTransactionId)).Nodup
  free : ∀ c ∈ cs, d.isClaimed c.normalisedTransactionId = false
  live : ∀ c ∈ cs, d.Live c.normalisedTransactionId
  active : ∀ c ∈ cs, c.status = .active
  stands : status ≠ .rejected
  status_eq : ∀ r ∈ rs, r.status = status
  owned : ∀ c ∈ cs, ∃ r ∈ rs, c.matchResultId = some r.id ∧ r.Side c.normalisedTransactionId
  covered : ∀ r ∈ rs, ∀ t, r.Side t → ∃ c ∈ cs, c.normalisedTransactionId = t ∧
    ∃ r' ∈ rs, c.matchResultId = some r'.id ∧ r'.SameMatch r
  parked : status = .pendingReview → ∀ r ∈ rs, r.internalTransactionId ≠ r.externalTransactionId ∧
    ∀ t, r.Side t → ∃ c ∈ cs, c.normalisedTransactionId = t ∧ c.matchResultId = some r.id

namespace NewMatch

variable {n : Nat} {d : Db} {status : ResultStatus} {rs : List MatchResult}
  {cs : List MatchClaim}

/-- The transactions that the match marks MATCHED: those it claims, unless it is to be reviewed. -/
def marks (status : ResultStatus) (cs : List MatchClaim) : List Id :=
  if status = .pendingReview then [] else cs.map (·.normalisedTransactionId)

/-- Who holds a claim after the match is recorded. -/
theorem holds_iff (hn : NewMatch n d status rs cs) (h : Ledger n d) {t : Id} {r : MatchResult} :
    (d.record rs cs).Holds t r ↔ d.Holds t r ∨
      r ∈ rs ∧ ∃ c ∈ cs, c.normalisedTransactionId = t ∧ c.matchResultId = some r.id := by
  constructor
  · rintro ⟨hr, c, hc, ha, ht, hid⟩
    rcases List.mem_append.mp hc with hold | hnew
    · left
      obtain ⟨r', hr', hid', -, -⟩ := h.owned c hold ha
      have hrr : r'.id = r.id := Option.some.inj (hid'.symm.trans hid)
      rcases List.mem_append.mp hr with hr | hr
      · exact ⟨hr, c, hold, ha, ht, hid⟩
      · exact absurd hrr ((hn.resultFresh r hr).2 r' hr')
    · right
      obtain ⟨r', hr', hid', -⟩ := hn.owned c hnew
      have hrr : r'.id = r.id := Option.some.inj (hid'.symm.trans hid)
      rcases List.mem_append.mp hr with hr | hr
      · exact absurd hrr.symm ((hn.resultFresh r' hr').2 r hr)
      · exact ⟨hr, c, hnew, ht, hid⟩
  · rintro (⟨hr, c, hc, ha, ht, hid⟩ | ⟨hr, c, hc, ht, hid⟩)
    · exact ⟨List.mem_append_left _ hr, c, List.mem_append_left _ hc, ha, ht, hid⟩
    · exact ⟨List.mem_append_right _ hr, c, List.mem_append_right _ hc, hn.active c hc, ht, hid⟩

end NewMatch

namespace Ledger

variable {n : Nat} {d : Db}

/-- Recording a new match, with its statuses, keeps the invariant. -/
theorem record {status : ResultStatus} {rs : List MatchResult} {cs : List MatchClaim}
    (h : Ledger n d) (hn : NewMatch n d status rs cs) :
    Ledger n ((d.record rs cs).setStatus .matched (NewMatch.marks status cs)) := by
  have holds_iff : ∀ {t r}, ((d.record rs cs).setStatus .matched (NewMatch.marks status cs)).Holds
      t r ↔ _ := hn.holds_iff h
  constructor
  case transactionIds =>
    rw [Db.setStatus_transaction_ids]
    exact h.transactionIds
  case transactionBelow =>
    intro row hrow
    obtain ⟨old, hold, hid, -⟩ := Db.mem_setStatus hrow
    exact hid ▸ h.transactionBelow old hold
  case resultIds =>
    exact nodup_append_of_fresh h.resultIds hn.resultIds fun r hr => (hn.resultFresh r hr).2
  case resultBelow =>
    intro r hr
    rcases List.mem_append.mp hr with hr | hr
    · exact h.resultBelow r hr
    · exact (hn.resultFresh r hr).1
  case claimIds =>
    exact nodup_append_of_fresh h.claimIds hn.claimIds fun c hc => (hn.claimFresh c hc).2
  case claimBelow =>
    intro c hc
    rcases List.mem_append.mp hc with hc | hc
    · exact h.claimBelow c hc
    · exact (hn.claimFresh c hc).1
  case exclusive =>
    intro c hc ha c' hc' ha' ht
    rcases List.mem_append.mp hc with hold | hnew <;> rcases List.mem_append.mp hc' with hold' | hnew'
    · exact h.exclusive c hold ha c' hold' ha' ht
    · exact absurd ht (Db.isClaimed_eq_false.mp (hn.free c' hnew') c hold ha)
    · exact absurd ht.symm (Db.isClaimed_eq_false.mp (hn.free c hnew) c' hold' ha')
    · exact List.inj_on_of_nodup_map hn.distinct hnew hnew' ht
  case owned =>
    intro c hc ha
    rcases List.mem_append.mp hc with hold | hnew
    · obtain ⟨r, hr, hid, hne, hside⟩ := h.owned c hold ha
      exact ⟨r, List.mem_append_left _ hr, hid, hne, hside⟩
    · obtain ⟨r, hr, hid, hside⟩ := hn.owned c hnew
      exact ⟨r, List.mem_append_right _ hr, hid, hn.status_eq r hr ▸ hn.stands, hside⟩
  case covered =>
    intro r hr hs t ht
    rcases List.mem_append.mp hr with hr | hr
    · obtain ⟨r', hr', hs', hsame⟩ := h.covered r hr hs t ht
      exact ⟨r', holds_iff.mpr (Or.inl hr'), hs', hsame⟩
    · obtain ⟨c, hc, hct, r', hr', hid, hsame⟩ := hn.covered r hr t ht
      have hs' : r'.Settled := by
        unfold MatchResult.Settled
        rw [hn.status_eq r' hr', ← hn.status_eq r hr]
        exact hs
      exact ⟨r', holds_iff.mpr (Or.inr ⟨hr', c, hc, hct, hid⟩), hs', hsame⟩
  case parked =>
    intro r hr hs
    rcases List.mem_append.mp hr with hr | hr
    · obtain ⟨hne, hholds⟩ := h.parked r hr hs
      exact ⟨hne, fun t ht => holds_iff.mpr (Or.inl (hholds t ht))⟩
    · obtain ⟨hne, hclaims⟩ := hn.parked ((hn.status_eq r hr).symm.trans hs) r hr
      refine ⟨hne, fun t ht => holds_iff.mpr (Or.inr ⟨hr, ?_⟩)⟩
      exact hclaims t ht
  case sides =>
    intro r hr hs t ht
    refine Db.mem_setStatus_ids ?_
    rcases List.mem_append.mp hr with hr | hr
    · exact h.sides r hr hs t ht
    · obtain ⟨c, hc, rfl, -⟩ := hn.covered r hr t ht
      obtain ⟨row, hrow, hid, -⟩ := hn.live c hc
      exact ⟨row, hrow, hid⟩
  case matched =>
    intro row hrow
    obtain ⟨old, hold, hid, hst⟩ := Db.mem_setStatus hrow
    rw [hst, ← hid]
    by_cases hmark : old.id ∈ NewMatch.marks status cs
    · rw [if_pos hmark]
      refine ⟨fun _ => ?_, fun _ => rfl⟩
      unfold NewMatch.marks at hmark
      split at hmark
      · cases hmark
      · rename_i hpending
        obtain ⟨c, hc, hct⟩ := List.mem_map.mp hmark
        obtain ⟨r, hr, hrid, -⟩ := hn.owned c hc
        refine ⟨r, holds_iff.mpr (Or.inr ⟨hr, c, hc, hct, hrid⟩), ?_⟩
        rcases r.status_cases with hs | hs | hs
        · exact hs
        · exact absurd ((hn.status_eq r hr).symm.trans hs) hpending
        · exact absurd ((hn.status_eq r hr).symm.trans hs) hn.stands
    · rw [if_neg hmark, h.matched old hold]
      constructor
      · rintro ⟨r, hr, hs⟩
        exact ⟨r, holds_iff.mpr (Or.inl hr), hs⟩
      · rintro ⟨r, hr, hs⟩
        rcases holds_iff.mp hr with hr | ⟨hr, c, hc, hct, -⟩
        · exact ⟨r, hr, hs⟩
        · refine absurd ?_ hmark
          unfold NewMatch.marks
          rw [if_neg (hn.status_eq r hr ▸ hs.ne_pending)]
          exact List.mem_map.mpr ⟨c, hc, hct⟩
  case notClaimed =>
    intro row hrow
    obtain ⟨old, hold, -, hst⟩ := Db.mem_setStatus hrow
    rw [hst]
    split
    · decide
    · exact h.notClaimed old hold
  case voided =>
    intro row hrow hv
    obtain ⟨old, hold, hid, hst⟩ := Db.mem_setStatus hrow
    rw [hst] at hv
    split at hv
    · cases hv
    · rw [← hid]
      refine (Db.isClaimed_record rs ?_).trans (h.voided old hold hv)
      intro hmem
      obtain ⟨c, hc, hct⟩ := List.mem_map.mp hmem
      obtain ⟨live, hlive, hlid, hne⟩ := hn.live c hc
      exact hne (h.transaction_eq hlive hold (hlid.trans hct) ▸ hv)

end Ledger

/-! ## Deciding about matches -/

/-- A decision about the matches `ids`: they become confirmed or rejected, the claims `cs` are
released, and the transactions `ts` get a new status. -/
structure Decision where
  status : ResultStatus
  reviewer : String
  ids : List Id
  cs : List Id
  ts : List Id

/-- The tables after the decision. -/
def Db.decided (x : Decision) (d : Db) : Db :=
  ((d.release x.cs).setResultStatus x.status x.reviewer x.ids).setStatus
    (if x.status = .confirmed then .matched else .unmatched) x.ts

/-- What a decision has to respect. Only matches under review are confirmed; a rejection is about
whole matches and releases all their claims. -/
structure Decision.Fits (x : Decision) (d : Db) : Prop where
  status : x.status = .confirmed ∨ x.status = .rejected
  pending : x.status = .confirmed → ∀ r ∈ d.results, r.id ∈ x.ids → r.status = .pendingReview
  whole : ∀ r ∈ d.results, r.Settled → r.id ∉ x.ids → ∀ r' ∈ d.results, r'.Settled →
    r'.SameMatch r → r'.id ∉ x.ids
  claims : ∀ c ∈ d.claims, c.status = .active →
    (c.id ∈ x.cs ↔ x.status = .rejected ∧ ∃ i ∈ x.ids, c.matchResultId = some i)
  held : ∀ t ∈ x.ts, ∃ r, d.Holds t r ∧ r.id ∈ x.ids
  sides : ∀ r, r.id ∈ x.ids → x.status = .confirmed ∨ r.Settled → ∀ t, d.Holds t r → t ∈ x.ts

namespace Decision.Fits

variable {x : Decision} {d : Db}

/-- The row as the decision leaves it. -/
theorem mem_results (x : Decision) {r : MatchResult} (h : r ∈ (d.decided x).results) :
    ∃ old ∈ d.results, (if old.id ∈ x.ids then old.judge x.status x.reviewer else old) = r :=
  mem_updateIn.mp h

/-- Who holds a claim after the decision: who held one of a match that was not rejected. -/
theorem holds_iff (hx : x.Fits d) {t : Id} {r : MatchResult} :
    (d.decided x).Holds t r ↔ ∃ old, d.Holds t old ∧ (x.status = .rejected → old.id ∉ x.ids) ∧
      (if old.id ∈ x.ids then old.judge x.status x.reviewer else old) = r := by
  constructor
  · rintro ⟨hr, c, hc, ha, ht, hid⟩
    obtain ⟨hcold, -, hcs⟩ := Db.mem_release.mp ⟨hc, ha⟩
    obtain ⟨old, hold, rfl⟩ := mem_results x hr
    have hid' : c.matchResultId = some old.id := by
      rw [hid]
      split <;> rfl
    refine ⟨old, ⟨hold, c, hcold, ha, ht, hid'⟩, fun hs hin => hcs ?_, rfl⟩
    exact (hx.claims c hcold ha).mpr ⟨hs, old.id, hin, hid'⟩
  · rintro ⟨old, ⟨hold, c, hc, ha, ht, hid⟩, hs, rfl⟩
    have hcs : c.id ∉ x.cs := by
      intro hin
      obtain ⟨hrej, i, hi, hci⟩ := (hx.claims c hc ha).mp hin
      exact hs hrej (Option.some.inj (hid.symm.trans hci) ▸ hi)
    obtain ⟨hc', ha'⟩ := Db.mem_release.mpr ⟨hc, ha, hcs⟩
    refine ⟨List.mem_map_of_mem hold, c, hc', ha', ht, ?_⟩
    split <;> exact hid

end Decision.Fits

/-- A decision keeps the invariant. -/
theorem Ledger.decided {n : Nat} {d : Db} {x : Decision} (h : Ledger n d) (hx : x.Fits d) :
    Ledger n (d.decided x) := by
  have hactive : ∀ c ∈ (d.decided x).claims, c.status = .active →
      c ∈ d.claims ∧ c.status = .active ∧ c.id ∉ x.cs :=
    fun c hc ha => Db.mem_release.mp ⟨hc, ha⟩
  constructor
  case transactionIds =>
    exact (Db.setStatus_transaction_ids _ _ _).symm ▸ h.transactionIds
  case transactionBelow =>
    intro row hrow
    obtain ⟨old, hold, hid, -⟩ := Db.mem_setStatus hrow
    exact hid ▸ h.transactionBelow old hold
  case resultIds =>
    exact (Db.setResultStatus_ids x.status x.reviewer x.ids d).symm ▸ h.resultIds
  case resultBelow =>
    intro r hr
    obtain ⟨old, hold, rfl⟩ := Decision.Fits.mem_results x hr
    split <;> exact h.resultBelow old hold
  case claimIds =>
    exact (Db.release_ids x.cs d).symm ▸ h.claimIds
  case claimBelow =>
    intro c hc
    obtain ⟨old, hold, rfl⟩ := mem_updateIn.mp hc
    split <;> exact h.claimBelow old hold
  case exclusive =>
    intro c hc ha c' hc' ha' ht
    exact h.exclusive c (hactive c hc ha).1 ha c' (hactive c' hc' ha').1 ha' ht
  case owned =>
    intro c hc ha
    obtain ⟨hcold, -, hcs⟩ := hactive c hc ha
    obtain ⟨old, hold, hid, hne, hside⟩ := h.owned c hcold ha
    refine ⟨_, List.mem_map_of_mem hold, ?_⟩
    by_cases hin : old.id ∈ x.ids
    · rw [if_pos hin]
      refine ⟨hid, fun hrej => hcs ?_, hside⟩
      exact (hx.claims c hcold ha).mpr ⟨hrej, old.id, hin, hid⟩
    · rw [if_neg hin]
      exact ⟨hid, hne, hside⟩
  case covered =>
    intro r hr hset t ht
    obtain ⟨old, hold, rfl⟩ := Decision.Fits.mem_results x hr
    by_cases hin : old.id ∈ x.ids
    · -- The row was confirmed just now: its sides hold its own claims.
      rw [if_pos hin] at hset ht ⊢
      have hconf : x.status = .confirmed := hx.status.resolve_right fun hrej => by
        exact hset.ne_rejected hrej
      have hholds := (h.parked old hold (hx.pending hconf old hold hin)).2 t ht
      refine ⟨_, (hx.holds_iff).mpr ⟨old, hholds, fun hrej => ?_, if_pos hin⟩, hset, Or.inl rfl⟩
      rw [hconf] at hrej
      cases hrej
    · rw [if_neg hin] at hset ht ⊢
      obtain ⟨r', hr', hset', hsame⟩ := h.covered old hold hset t ht
      have hin' := hx.whole old hold hset hin r' hr'.1 hset' hsame
      exact ⟨r', (hx.holds_iff).mpr ⟨r', hr', fun _ => hin', if_neg hin'⟩, hset', hsame⟩
  case parked =>
    intro r hr hp
    obtain ⟨old, hold, rfl⟩ := Decision.Fits.mem_results x hr
    by_cases hin : old.id ∈ x.ids
    · rw [if_pos hin] at hp
      rcases hx.status with hs | hs
      · exact absurd (hp.symm.trans hs) (by decide)
      · exact absurd (hp.symm.trans hs) (by decide)
    · rw [if_neg hin] at hp ⊢
      obtain ⟨hne, hholds⟩ := h.parked old hold hp
      exact ⟨hne, fun t ht =>
        (hx.holds_iff).mpr ⟨old, hholds t ht, fun _ => hin, if_neg hin⟩⟩
  case sides =>
    intro r hr hs t ht
    refine Db.mem_setStatus_ids ?_
    obtain ⟨old, hold, rfl⟩ := Decision.Fits.mem_results x hr
    by_cases hin : old.id ∈ x.ids
    · rw [if_pos hin] at hs ht
      have hp := hx.pending (hx.status.resolve_right hs) old hold hin
      exact h.sides old hold (by rw [hp]; decide) t ht
    · rw [if_neg hin] at hs ht
      exact h.sides old hold hs t ht
  case matched =>
    intro row hrow
    obtain ⟨old, hold, hid, hst⟩ := Db.mem_setStatus hrow
    have hmatched := h.matched old hold
    rw [hst, ← hid]
    by_cases hts : old.id ∈ x.ts
    · rw [if_pos hts]
      obtain ⟨r, hr, hin⟩ := hx.held old.id hts
      rcases hx.status with hs | hs
      · rw [if_pos hs]
        refine ⟨fun _ => ⟨_, (hx.holds_iff).mpr ⟨r, hr, ?_, if_pos hin⟩, Or.inr hs⟩, fun _ => rfl⟩
        intro hrej
        rw [hs] at hrej
        cases hrej
      · rw [if_neg (by rw [hs]; decide)]
        refine ⟨nofun, ?_⟩
        rintro ⟨r', hr', -⟩
        obtain ⟨r'', hr'', hout, -⟩ := (hx.holds_iff).mp hr'
        exact absurd (h.holds_unique hr hr'' ▸ hin) (hout hs)
    · rw [if_neg hts, show old.matchStatus = .matched ↔ _ from hmatched]
      constructor
      · rintro ⟨r, hr, hset⟩
        have hin : r.id ∉ x.ids := fun hin => hts (hx.sides r hin (Or.inr hset) _ hr)
        exact ⟨r, (hx.holds_iff).mpr ⟨r, hr, fun _ => hin, if_neg hin⟩, hset⟩
      · rintro ⟨r, hr, hset⟩
        obtain ⟨r', hr', hout, rfl⟩ := (hx.holds_iff).mp hr
        by_cases hin : r'.id ∈ x.ids
        · have hconf := hx.status.resolve_right fun hrej => hout hrej hin
          exact absurd (hx.sides r' hin (Or.inl hconf) _ hr') hts
        · rw [if_neg hin] at hset
          exact ⟨r', hr', hset⟩
  case notClaimed =>
    intro row hrow
    obtain ⟨old, hold, -, hst⟩ := Db.mem_setStatus hrow
    rw [hst]
    split
    · split <;> decide
    · exact h.notClaimed old hold
  case voided =>
    intro row hrow hv
    obtain ⟨old, hold, hid, hst⟩ := Db.mem_setStatus hrow
    rw [hst] at hv
    split at hv
    · split at hv <;> cases hv
    · rw [← hid, Db.isClaimed_eq_false]
      intro c hc ha
      exact Db.isClaimed_eq_false.mp (h.voided old hold hv) c (hactive c hc ha).1 ha

/-! ## Voiding and ingesting -/

/-- Voiding a transaction that is UNMATCHED and free keeps the invariant. -/
theorem Ledger.void {n : Nat} {d : Db} {copy : NormalisedTransaction} {original : Id}
    (h : Ledger n d) (hcopy : copy ∈ d.transactions) (hs : copy.matchStatus = .unmatched)
    (hfree : d.isClaimed copy.id = false) :
    Ledger n ((RowWrite.voidTransaction copy.id original).apply d) := by
  have hrow : ∀ row ∈ ((RowWrite.voidTransaction copy.id original).apply d).transactions,
      ∃ old ∈ d.transactions, old.id = row.id ∧
        (old = copy ∧ row.matchStatus = .voided ∨ row.matchStatus = old.matchStatus) := by
    intro row hrow
    obtain ⟨old, hold, rfl⟩ := mem_updateIn.mp hrow
    refine ⟨old, hold, ?_⟩
    by_cases hid : old.id ∈ [copy.id]
    · rw [if_pos hid]
      exact ⟨rfl, Or.inl ⟨h.transaction_eq hold hcopy (List.mem_singleton.mp hid), rfl⟩⟩
    · rw [if_neg hid]
      exact ⟨rfl, Or.inr rfl⟩
  have hids : ((RowWrite.voidTransaction copy.id original).apply d).transactions.map (·.id) =
      d.transactions.map (·.id) := map_updateIn fun _ => rfl
  constructor
  case transactionIds => exact hids.symm ▸ h.transactionIds
  case transactionBelow =>
    intro row hr
    obtain ⟨old, hold, hid, -⟩ := hrow row hr
    exact hid ▸ h.transactionBelow old hold
  case resultIds => exact h.resultIds
  case resultBelow => exact h.resultBelow
  case claimIds => exact h.claimIds
  case claimBelow => exact h.claimBelow
  case exclusive => exact h.exclusive
  case owned => exact h.owned
  case covered => exact h.covered
  case parked => exact h.parked
  case sides =>
    intro r hr hne t ht
    have hmem : t ∈ d.transactions.map (·.id) := List.mem_map.mpr (h.sides r hr hne t ht)
    rw [← hids] at hmem
    exact List.mem_map.mp hmem
  case matched =>
    intro row hr
    obtain ⟨old, hold, hid, hst⟩ := hrow row hr
    have hmatched := h.matched old hold
    rcases hst with ⟨rfl, hst⟩ | hst
    · rw [hst]
      refine ⟨nofun, ?_⟩
      rintro ⟨r, hholds, hset⟩
      have hold' : d.Holds old.id r := hid ▸ hholds
      have := hold'.isClaimed
      rw [hfree] at this
      cases this
    · rw [hst, ← hid]
      exact hmatched
  case notClaimed =>
    intro row hr
    obtain ⟨old, hold, -, hst⟩ := hrow row hr
    rcases hst with ⟨-, hst⟩ | hst
    · rw [hst]
      decide
    · rw [hst]
      exact h.notClaimed old hold
  case voided =>
    intro row hr hv
    obtain ⟨old, hold, hid, hst⟩ := hrow row hr
    rw [← hid]
    rcases hst with ⟨rfl, -⟩ | hst
    · exact hfree
    · exact h.voided old hold (hst ▸ hv)

/-- Nobody claims a transaction before it is there. -/
theorem Ledger.unclaimed_of_fresh {n : Nat} {d : Db} (h : Ledger n d) {t : Id} (hnew : n ≤ t) :
    d.isClaimed t = false := by
  rw [← Bool.not_eq_true]
  intro hclaimed
  obtain ⟨r, hr, hne, hside⟩ := h.holds_of_isClaimed hclaimed
  obtain ⟨row, hrow, hid⟩ := h.sides r hr.1 hne t hside
  exact Nat.lt_irrefl t (Nat.lt_of_lt_of_le (hid ▸ h.transactionBelow row hrow) hnew)

/-- A new transaction that is UNMATCHED keeps the invariant. -/
theorem Ledger.insertTransaction {n n' : Nat} {d : Db} {t : NormalisedTransaction}
    (h : Ledger n d) (hnew : n ≤ t.id) (hn : n ≤ n') (hbelow : t.id < n')
    (hs : t.matchStatus = .unmatched) : Ledger n' ((RowWrite.insertTransaction t).apply d) := by
  have hmem : ∀ {row}, row ∈ ((RowWrite.insertTransaction t).apply d).transactions →
      row ∈ d.transactions ∨ row = t := fun hrow =>
    (List.mem_append.mp hrow).imp_right List.mem_singleton.mp
  have hfree := h.unclaimed_of_fresh hnew
  constructor
  case transactionIds =>
    refine nodup_append_of_fresh h.transactionIds (List.nodup_singleton _) ?_
    intro row hrow old hold heq
    rw [List.mem_singleton.mp hrow] at heq
    exact Nat.ne_of_lt (Nat.lt_of_lt_of_le (h.transactionBelow old hold) hnew) heq
  case transactionBelow =>
    intro row hrow
    rcases hmem hrow with hrow | rfl
    · exact Nat.lt_of_lt_of_le (h.transactionBelow row hrow) hn
    · exact hbelow
  case resultIds => exact h.resultIds
  case resultBelow => exact fun r hr => Nat.lt_of_lt_of_le (h.resultBelow r hr) hn
  case claimIds => exact h.claimIds
  case claimBelow => exact fun c hc => Nat.lt_of_lt_of_le (h.claimBelow c hc) hn
  case exclusive => exact h.exclusive
  case owned => exact h.owned
  case covered => exact h.covered
  case parked => exact h.parked
  case sides =>
    intro r hr hne x hx
    obtain ⟨row, hrow, hid⟩ := h.sides r hr hne x hx
    exact ⟨row, List.mem_append_left _ hrow, hid⟩
  case matched =>
    intro row hrow
    rcases hmem hrow with hrow | rfl
    · exact h.matched row hrow
    · rw [hs]
      refine ⟨nofun, ?_⟩
      rintro ⟨r, hholds, -⟩
      have hclaimed := Db.Holds.isClaimed (d := d) hholds
      rw [hfree] at hclaimed
      cases hclaimed
  case notClaimed =>
    intro row hrow
    rcases hmem hrow with hrow | rfl
    · exact h.notClaimed row hrow
    · rw [hs]
      decide
  case voided =>
    intro row hrow hv
    rcases hmem hrow with hrow | rfl
    · exact h.voided row hrow hv
    · exact hfree

/-- Tables with nothing but UNMATCHED transactions satisfy the invariant. -/
theorem Ledger.ingested {n : Nat} {d : Db} (hids : (d.transactions.map (·.id)).Nodup)
    (hbelow : ∀ t ∈ d.transactions, t.id < n)
    (hstatus : ∀ t ∈ d.transactions, t.matchStatus = .unmatched) (hresults : d.results = [])
    (hclaims : d.claims = []) : Ledger n d := by
  have hnone : ∀ t, d.isClaimed t = false := by
    intro t
    simp only [Db.isClaimed, hclaims, List.any_nil]
  constructor
  case transactionIds => exact hids
  case transactionBelow => exact hbelow
  case resultIds => simp [hresults]
  case resultBelow => simp [hresults]
  case claimIds => simp [hclaims]
  case claimBelow => simp [hclaims]
  case exclusive => simp [hclaims]
  case owned => simp [hclaims]
  case covered => simp [hresults]
  case parked => simp [hresults]
  case sides => simp [hresults]
  case matched =>
    intro row hrow
    rw [hstatus row hrow]
    refine ⟨nofun, ?_⟩
    rintro ⟨r, hr, -⟩
    have := hr.isClaimed
    rw [hnone] at this
    cases this
  case notClaimed =>
    intro row hrow
    rw [hstatus row hrow]
    decide
  case voided => exact fun row _ _ => hnone row.id

end Recon
