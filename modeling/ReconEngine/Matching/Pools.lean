import ReconEngine.Matching.Record
import Mathlib.Data.List.Sort
import Mathlib.Data.Prod.Lex

/-!
# Candidate pools

`MatchingRepository`: the transactions a matching level may use, in the order that makes
tie-breaks deterministic, and the pairs a person has rejected.

A level reads the rejected pairs once and goes on to rely on them without a lock. The mark of that
read names the pairs the level could still make; the level drops it when it ends.

**The rule** (`OnPools`): whatever was rejected, what a level writes pairs transactions of its
pools. Every level is shown to be such a program, and the invariants of runs ask for no more.

**What it does not establish.** That the pools are complete. A transaction outside the date range,
or of another bank, is not offered to the level at all.
-/

set_option autoImplicit false

namespace Recon

open Store.Prog hiding pure bind

/-- An inclusive range of booking dates, open where a bound is absent. -/
structure DateRange where
  dateFrom : Option Date := none
  dateTo : Option Date := none
deriving DecidableEq, Repr

def DateRange.contains (range : DateRange) (day : Date) : Bool :=
  range.dateFrom.all (· ≤ day) && range.dateTo.all (day ≤ ·)

/-- Calendar days between two booking dates. -/
def daysApart (a b : NormalisedTransaction) : Nat := (a.txnDate - b.txnDate).natAbs

/-- `ORDER BY` of a nullable column: nulls last. -/
def nullsLast : Option Int → Option Int → Ordering
  | some a, some b => compare a b
  | some _, none => .lt
  | none, some _ => .gt
  | none, none => .eq

/-- `ORDER BY txn_date, source_line_no, id`. -/
def poolOrder (a b : NormalisedTransaction) : Bool :=
  ((compare a.txnDate b.txnDate).then
    ((nullsLast a.sourceLineNo b.sourceLineNo).then (compare a.id b.id))).isLE

namespace Db

/-- UNMATCHED, holding no ACTIVE claim, and in the range. -/
def available (d : Db) (bankCode : String) (source : Source) (range : DateRange)
    (t : NormalisedTransaction) : Bool :=
  t.bankCode == bankCode && t.source == source && t.matchStatus == .unmatched &&
    !d.isClaimed t.id && range.contains t.txnDate

def findUnmatched (d : Db) (bankCode : String) (source : Source) (range : DateRange) :
    List NormalisedTransaction :=
  (d.transactions.filter (d.available bankCode source range)).insertionSort
    fun a b => poolOrder a b = true

def countUnmatched (d : Db) (bankCode : String) (source : Source) (range : DateRange) : Nat :=
  d.transactions.countP (d.available bankCode source range)

/-- The pairs with a REJECTED result whose internal side is among `internals`. -/
def rejectedPairs (d : Db) (internals : List Id) : List (Id × Id) :=
  (d.results.filter fun r => r.status = .rejected ∧ r.internalTransactionId ∈ internals).map
    fun r => (r.internalTransactionId, r.externalTransactionId)

/-- The pair has a REJECTED result. -/
def Rejected (d : Db) (internal external : Id) : Prop :=
  ∃ r ∈ d.results, r.status = .rejected ∧ r.internalTransactionId = internal ∧
    r.externalTransactionId = external

/-- A pool has the rows of its side that are available. -/
theorem mem_findUnmatched {d : Db} {bankCode : String} {source : Source} {range : DateRange}
    {t : NormalisedTransaction} :
    t ∈ d.findUnmatched bankCode source range ↔
      t ∈ d.transactions ∧ d.available bankCode source range t = true := by
  simp only [findUnmatched, List.mem_insertionSort, List.mem_filter]

/-- A row is available when it is UNMATCHED, unclaimed, of the bank and in the range. -/
theorem available_iff {d : Db} {bankCode : String} {source : Source} {range : DateRange}
    {t : NormalisedTransaction} :
    d.available bankCode source range t = true ↔ t.bankCode = bankCode ∧ t.source = source ∧
      t.matchStatus = .unmatched ∧ d.isClaimed t.id = false ∧ range.contains t.txnDate = true := by
  simp only [available, Bool.and_eq_true, beq_iff_eq, Bool.not_eq_true', and_assoc]

/-- The rejected pairs of some internals. -/
theorem mem_rejectedPairs {d : Db} {internals : List Id} {i e : Id} :
    (i, e) ∈ d.rejectedPairs internals ↔ i ∈ internals ∧ d.Rejected i e := by
  simp only [rejectedPairs, Rejected, List.mem_map, List.mem_filter, decide_eq_true_eq, Prod.mk.injEq]
  constructor
  · rintro ⟨r, ⟨hr, hs, hi⟩, rfl, rfl⟩
    exact ⟨hi, r, hr, hs, rfl, rfl⟩
  · rintro ⟨hi, r, hr, hs, rfl, rfl⟩
    exact ⟨r, ⟨hr, hs, hi⟩, rfl, rfl⟩

theorem live_of_mem_findUnmatched {d : Db} {bankCode : String} {source : Source} {range : DateRange}
    {t : NormalisedTransaction} (ht : t ∈ d.findUnmatched bankCode source range) : d.Live t.id := by
  obtain ⟨hmem, hav⟩ := mem_findUnmatched.mp ht
  refine ⟨t, hmem, rfl, ?_⟩
  rw [(available_iff.mp hav).2.2.1]
  decide

end Db

def findUnmatched (bankCode : String) (source : Source) (range : DateRange) :
    Prog (List NormalisedTransaction) := do
  let d ← tables
  return d.findUnmatched bankCode source range

/-- The identifiers of some transactions. -/
def ids (ts : List NormalisedTransaction) : List Id := ts.map (·.id)

theorem findUnmatched_nodup (bankCode : String) (range : DateRange) {d : Db}
    (hids : (ids d.transactions).Nodup) (source : Source) :
    (ids (d.findUnmatched bankCode source range)).Nodup :=
  ((List.perm_insertionSort _ _).map _).nodup_iff.mpr (hids.sublist (List.filter_sublist.map _))

/-! ## Orders of several columns -/

/-- A nullable column as a rank: an absent value is the greatest. -/
def lastIfAbsent : Option Int → Bool ×ₗ Int
  | some n => toLex (false, n)
  | none => toLex (true, 0)

/-- Ties in one column are broken by the next. -/
theorem then_isLE_iff {α : Type} [LinearOrder α] (x y : α) (o : Ordering) :
    ((compare x y).then o).isLE = true ↔ x < y ∨ x = y ∧ o.isLE = true := by
  rcases lt_trichotomy x y with h | rfl | h
  · rw [compare_lt_iff_lt.mpr h]
    exact iff_of_true rfl (Or.inl h)
  · rw [compare_eq_iff_eq.mpr rfl]
    simp
  · rw [compare_gt_iff_gt.mpr h]
    refine iff_of_false (by simp [Ordering.then]) ?_
    rintro (hlt | ⟨rfl, -⟩)
    · exact lt_asymm h hlt
    · exact lt_irrefl x h

theorem nullsLast_isLE_iff (a b : Option Int) (o : Ordering) :
    ((nullsLast a b).then o).isLE = true ↔
      lastIfAbsent a < lastIfAbsent b ∨ lastIfAbsent a = lastIfAbsent b ∧ o.isLE = true := by
  cases a with
  | none =>
    cases b with
    | none => simp [nullsLast, lastIfAbsent]
    | some n => simp [nullsLast, lastIfAbsent, Ordering.then, Prod.Lex.toLex_lt_toLex]
  | some m =>
    cases b with
    | none => simp [nullsLast, lastIfAbsent, Ordering.then, Prod.Lex.toLex_lt_toLex]
    | some n =>
      show ((compare m n).then o).isLE = true ↔ _
      rw [then_isLE_iff]
      simp [lastIfAbsent, Prod.Lex.toLex_lt_toLex]

/-- The columns `source_line_no, id`. -/
def NormalisedTransaction.lineRank (t : NormalisedTransaction) : (Bool ×ₗ Int) ×ₗ Id :=
  toLex (lastIfAbsent t.sourceLineNo, t.id)

theorem lineOrder_iff (a b : NormalisedTransaction) :
    ((nullsLast a.sourceLineNo b.sourceLineNo).then (compare a.id b.id)).isLE = true ↔
      a.lineRank ≤ b.lineRank := by
  rw [nullsLast_isLE_iff, NormalisedTransaction.lineRank, NormalisedTransaction.lineRank,
    Prod.Lex.toLex_le_toLex]
  have hid : (compare a.id b.id).isLE = true ↔ a.id ≤ b.id := Nat.isLE_compare
  rw [hid]

/-- `ORDER BY txn_date, source_line_no, id` as a rank. -/
def NormalisedTransaction.poolRank (t : NormalisedTransaction) : Date ×ₗ (Bool ×ₗ Int) ×ₗ Id :=
  toLex (t.txnDate, t.lineRank)

/-- The order of a pool is that of a rank. -/
theorem poolOrder_iff (a b : NormalisedTransaction) :
    poolOrder a b = true ↔ a.poolRank ≤ b.poolRank := by
  unfold poolOrder NormalisedTransaction.poolRank
  rw [then_isLE_iff, lineOrder_iff, Prod.Lex.toLex_le_toLex]

theorem findUnmatched_sorted (d : Db) (bankCode : String) (source : Source) (range : DateRange) :
    (d.findUnmatched bankCode source range).Pairwise fun a b => a.poolRank ≤ b.poolRank := by
  have htotal : Std.Total fun a b : NormalisedTransaction => poolOrder a b = true :=
    ⟨fun a b => by simp only [poolOrder_iff]; exact le_total _ _⟩
  have htrans : IsTrans NormalisedTransaction fun a b => poolOrder a b = true :=
    ⟨fun a b c => by simp only [poolOrder_iff]; exact le_trans⟩
  refine (List.pairwise_insertionSort _ _).imp fun {a b} h => ?_
  exact (poolOrder_iff a b).mp h

/-! ## Levels -/

/-- A matching level: it reads the rejected pairs among those it could make, and relies on them
until it ends. -/
def level {α : Type} (pairs : Db → List Id × List Id) (body : Db → Prog α) : Prog α := do
  let d ← tablesMarking fun d => [.rejectedPairs (pairs d).1 (pairs d).2]
  let result ← body d
  forget
  return result

/-- A level on given pools, with the rejected pairs of its internals. -/
def levelOn {α : Type} (internals externals : List NormalisedTransaction)
    (body : List (Id × Id) → Prog α) : Prog α :=
  level (fun _ => (ids internals, ids externals)) fun d => body (d.rejectedPairs (ids internals))

/-- The current internal and external pools, fetched fresh. -/
def pools (bankCode : String) (range : DateRange) :
    Prog (List NormalisedTransaction × List NormalisedTransaction) := do
  let internals ← findUnmatched bankCode .internal range
  let externals ← findUnmatched bankCode .external range
  return (internals, externals)

@[simp] theorem work_findUnmatched {W : RowWrite → Prop} (bankCode : String) (source : Source)
    (range : DateRange) : (findUnmatched bankCode source range).Work W :=
  Work.bind work_tables fun _ => work_pure _

theorem level_work {W : RowWrite → Prop} {α : Type} {pairs : Db → List Id × List Id}
    {body : Db → Prog α} (h : ∀ d, (body d).Work W) : (level pairs body).Work W :=
  Work.bind (work_tablesMarking _) fun d => Work.bind (h d) fun _ =>
    Work.bind work_forget fun _ => work_pure _

@[simp] theorem work_pools {W : RowWrite → Prop} (bankCode : String) (range : DateRange) :
    (pools bankCode range).Work W :=
  Work.bind (work_findUnmatched _ _ _) fun _ =>
    Work.bind (work_findUnmatched _ _ _) fun _ => work_pure _

section

variable {E : ReconError → Session → Prop} {s : Session}

@[simp] theorem wp_findUnmatched {Q : List NormalisedTransaction → Session → Prop}
    {bankCode : String} {source : Source} {range : DateRange} :
    (findUnmatched bankCode source range).wp Q E s ↔
      Q (s.view.findUnmatched bankCode source range) s := Iff.rfl

/-- A level runs its body on what it has read. -/
@[simp] theorem wp_level {α : Type} {Q : α → Session → Prop} {pairs : Db → List Id × List Id}
    {body : Db → Prog α} : (level pairs body).wp Q E s ↔ (body s.view).wp Q E s := by
  simp only [level, bind_eq, wp_bind, wp_tablesMarking, wp_forget, pure_eq, wp_pure]

@[simp] theorem wp_levelOn {α : Type} {Q : α → Session → Prop}
    {internals externals : List NormalisedTransaction} {body : List (Id × Id) → Prog α} :
    (levelOn internals externals body).wp Q E s ↔
      (body (s.view.rejectedPairs (ids internals))).wp Q E s := wp_level

@[simp] theorem wp_pools
    {Q : List NormalisedTransaction × List NormalisedTransaction → Session → Prop}
    {bankCode : String} {range : DateRange} :
    (pools bankCode range).wp Q E s ↔ Q (s.view.findUnmatched bankCode .internal range,
      s.view.findUnmatched bankCode .external range) s := Iff.rfl

end

/-- What a matching level has to work with. -/
theorem Ledger.workable {n : Nat} {d : Db} (h : Ledger n d) (bankCode : String)
    (range : DateRange) :
    Workable (ids (d.findUnmatched bankCode .internal range) ++
      ids (d.findUnmatched bankCode .external range)) [] n d where
  ledger := by
    rw [Db.setStatus_no_ids]
    exact h
  live t ht := by
    rcases List.mem_append.mp ht with ht | ht
    · obtain ⟨row, hrow, rfl⟩ := List.mem_map.mp ht
      exact Db.live_of_mem_findUnmatched hrow
    · obtain ⟨row, hrow, rfl⟩ := List.mem_map.mp ht
      exact Db.live_of_mem_findUnmatched hrow

theorem Workable.of_nil {pool : List Id} {n : Nat} {d : Db} (h : Workable pool [] n d) :
    Ledger n d := by
  have := h.ledger
  rwa [Db.setStatus_no_ids] at this

/-! ## What a level writes -/

/-- The writes of a matching level: claims, their results, the status MATCHED, entries on the
matching chain, and results whose columns satisfy `ok`. -/
def LevelWrite (ok : MatchColumns → Prop) : RowWrite → Prop
  | .insertResult r => ok r.toMatchColumns
  | .transactionStatus _ status => status = .matched
  | .insertAudit row => row.chainId = matchingChain
  | .insertClaim _ | .claimResult _ _ => True
  | _ => False

/-- The same, of results that are not REJECTED and pair what `ok` allows. -/
def StageWrite (ok : Id → Id → Prop) : RowWrite → Prop
  | .insertResult r => r.status ≠ .rejected ∧ ok r.internalTransactionId r.externalTransactionId
  | .insertClaim _ | .claimResult _ _ | .transactionStatus _ _ | .insertAudit _ => True
  | _ => False

/-- The pairs that a level may make once it has read the rejected ones. -/
def Allowed (internals externals : List NormalisedTransaction) (rejected : List (Id × Id))
    (i e : Id) : Prop :=
  i ∈ ids internals ∧ e ∈ ids externals ∧ (i, e) ∉ rejected

/-- The results that a level may write: those it makes at all, not REJECTED, of pairs it may make. -/
structure Proposed (ok : MatchColumns → Prop) (internals externals : List NormalisedTransaction)
    (rejected : List (Id × Id)) (m : MatchColumns) : Prop where
  made : ok m
  stands : m.status ≠ .rejected
  allowed : Allowed internals externals rejected m.internalTransactionId m.externalTransactionId

/-- A level that makes only pairs which it named and which were not rejected when it read them, or
that fails before it reads anything. -/
def RespectsRejections {α : Type} (p : Prog α) : Prop :=
  (∃ e, p = .fail e) ∨ ∃ (pairs : Db → List Id × List Id) (body : Db → Prog α),
    p = level pairs body ∧ ∀ d, (body d).Work
      (StageWrite fun i e => i ∈ (pairs d).1 ∧ e ∈ (pairs d).2 ∧ ¬ d.Rejected i e)

/-- A level on two pools whose results satisfy `ok`, or that fails before it reads anything. -/
def OnPools {α : Type} (ok : MatchColumns → Prop) (internals externals : List NormalisedTransaction)
    (p : Prog α) : Prop :=
  (∃ e, p = .fail e) ∨ ∃ body, p = levelOn internals externals body ∧
    ∀ rejected, (body rejected).Work (LevelWrite (Proposed ok internals externals rejected))

/-- What respects rejections writes as a stage does. -/
theorem RespectsRejections.work {α : Type} {p : Prog α} (h : RespectsRejections p) :
    p.Work (StageWrite fun _ _ => True) := by
  obtain ⟨e, rfl⟩ | ⟨pairs, body, rfl, hbody⟩ := h
  · exact work_fail e
  · refine level_work fun d => (hbody d).weaken fun w hw => ?_
    cases w with
    | insertResult r => exact ⟨hw.1, trivial⟩
    | _ => exact hw

theorem LevelWrite.weaken {ok ok' : MatchColumns → Prop} (h : ∀ m, ok m → ok' m) :
    ∀ w, LevelWrite ok w → LevelWrite ok' w := by
  intro w hw
  cases w with
  | insertResult r => exact h _ hw
  | _ => exact hw

/-- Without results to write, the results stay. -/
theorem LevelWrite.results {w : RowWrite} {d : Db} (h : LevelWrite (fun _ => False) w) :
    (w.apply d).results = d.results := by
  cases w with
  | insertResult r => exact h.elim
  | insertClaim c => rfl
  | claimResult c r => rfl
  | transactionStatus t status => rfl
  | insertAudit row => rfl
  | _ => exact h.elim

/-- What a level writes pairs transactions that may be paired. -/
theorem LevelWrite.stage {ok : MatchColumns → Prop} {ok' : Id → Id → Prop} (h : ∀ m, ok m →
      m.status ≠ .rejected ∧ ok' m.internalTransactionId m.externalTransactionId) :
    ∀ w, LevelWrite ok w → StageWrite ok' w := by
  intro w hw
  cases w with
  | insertResult r => exact h _ hw
  | transactionStatus t status => trivial
  | insertAudit row => trivial
  | _ => exact hw

namespace OnPools

variable {α : Type} {ok : MatchColumns → Prop} {internals externals : List NormalisedTransaction}
  {p : Prog α}

/-- A program on pools respects the rejections. -/
theorem respects (h : OnPools ok internals externals p) : RespectsRejections p := by
  rcases h with hfail | ⟨body, rfl, hbody⟩
  · exact Or.inl hfail
  refine Or.inr ⟨_, _, rfl, fun d => (hbody (d.rejectedPairs (ids internals))).weaken
    (LevelWrite.stage fun m hm => ⟨hm.stands, hm.allowed.1, hm.allowed.2.1, fun hrej => ?_⟩)⟩
  exact hm.allowed.2.2 (Db.mem_rejectedPairs.mpr ⟨hm.allowed.1, hrej⟩)

/-- Whatever was rejected, what is written pairs transactions of the pools. -/
theorem work (h : OnPools ok internals externals p) :
    p.Work (LevelWrite (Proposed ok internals externals [])) := by
  rcases h with ⟨e, rfl⟩ | ⟨body, rfl, hbody⟩
  · exact work_fail e
  · exact level_work fun d => (hbody _).weaken (LevelWrite.weaken fun m hm =>
      ⟨hm.made, hm.stands, hm.allowed.1, hm.allowed.2.1, List.not_mem_nil⟩)

end OnPools

/-- A row that matches one transaction with one other at once. -/
def MatchColumns.AutoPair (m : MatchColumns) : Prop :=
  m.status = .autoMatched ∧ m.matchGroupId = none

theorem MatchColumns.AutoPair.stands {m : MatchColumns} (h : m.AutoPair) : m.status ≠ .rejected := by
  rw [h.1]
  decide

theorem recordPair_level {ok : MatchColumns → Prop} {m : MatchColumns} (h : ok m) :
    (recordPair m).Work (LevelWrite ok) :=
  recordPair_work (fun _ => trivial) (fun _ _ => trivial) fun _ => h

theorem markMatched_level {ok : MatchColumns → Prop} {m : MatchColumns} :
    (markMatched m).Work (LevelWrite ok) :=
  markAll_work (fun _ => rfl) _

end Recon
