import ReconEngine.Exceptions.Copies
import ReconEngine.Histories.Duplicates
import ReconEngine.Matching.ExactSound

/-!
# Matched originals

The exact stage takes the rows of a set in the order of date, source line and identifier, duplicate
detection keeps the first by ingestion time, source line and identifier. So of a set that is spread
over several files the stage may match a copy and leave the original. It does not where the
original comes first in the order of the lines too, or where there are counterparts for all.

**The law** (`exact_matches_originals`): after any deliveries, if the originals come first in the
order of the pool, the exact levels leave every copy that is matched with its original matched.

**What it does not establish.** What the later stages make of the copies and originals that are
left. Deliveries that come after the run are not looked at either.
-/

set_option autoImplicit false

namespace Recon

open Greedy (Assignment)
open Store (Committed)
open Store.Prog hiding pure bind

/-! ## Rows like each other -/

/-- Rows like each other have the key of one, and the same distance to every row. -/
theorem NormalisedTransaction.Alike.buildKey {a b : NormalisedTransaction} (h : a.Alike b) :
    buildKey a = buildKey b := by
  unfold Recon.buildKey keyOf
  rw [h.reference, h.amountMinor, h.currency, h.direction]

/-- Rows like each other have one key. -/
theorem NormalisedTransaction.Alike.keyOf {a b : NormalisedTransaction} (h : a.Alike b)
    (blank : Char → Bool) : keyOf blank a = keyOf blank b := by
  unfold Recon.keyOf
  rw [h.reference, h.amountMinor, h.currency, h.direction]

section

variable {internals externals : List NormalisedTransaction}
  {pairs : List (NormalisedTransaction × NormalisedTransaction)}
  {original t : NormalisedTransaction}

/-- In a sorted pool a row that is not after another by rank does not stand after it. -/
theorem split_of_rank {pool : List NormalisedTransaction}
    (hsorted : pool.Pairwise fun a b => a.poolRank ≤ b.poolRank) (hin : original ∈ pool)
    (ht : t ∈ pool) (halike : original.Alike t) (hfirst : original.lineRank ≤ t.lineRank)
    (hne : original.id ≠ t.id) :
    ∃ before after, pool = before ++ t :: after ∧ original ∈ before := by
  obtain ⟨before, after, rfl⟩ := List.append_of_mem ht
  refine ⟨before, after, rfl, ?_⟩
  rcases List.mem_append.mp hin with hin | hin
  · exact hin
  · rcases List.mem_cons.mp hin with rfl | hin
    · exact absurd rfl hne
    · have hle := (List.pairwise_cons.mp (List.pairwise_append.mp hsorted).2.1).1 original hin
      unfold NormalisedTransaction.poolRank at hle
      rw [halike.txnDate, Prod.Lex.toLex_le_toLex] at hle
      rcases hle with hlt | ⟨-, hle⟩
      · exact absurd hlt (lt_irrefl _)
      · exact absurd (congrArg (fun rank => (ofLex rank).2) (le_antisymm hfirst hle)) hne

/-- Of two internals like each other, the first one of the pool is matched if the other is. -/
theorem internal_first
    (h : Assignment (exactTerms internals []) internals externals pairs [])
    (hsorted : internals.Pairwise fun a b => a.poolRank ≤ b.poolRank) (hids : (ids internals).Nodup)
    (hin : original ∈ internals) (ht : t ∈ internals) (halike : original.Alike t)
    (hfirst : original.lineRank ≤ t.lineRank) (hpaired : t ∈ pairs.map Prod.fst) :
    original ∈ pairs.map Prod.fst := by
  by_cases hne : original.id = t.id
  · rwa [List.inj_on_of_nodup_map hids hin ht hne]
  obtain ⟨before, after, heq, hbefore⟩ := split_of_rank hsorted hin ht halike hfirst hne
  refine h.first_item hin ?_ ?_ ?_ hpaired
  · rintro b ⟨⟨key, hkey, hb⟩, -⟩
    exact ⟨⟨key, halike.buildKey.trans hkey, hb⟩, List.not_mem_nil⟩
  · intro b
    show daysApart original b = daysApart t b
    rw [daysApart, daysApart, halike.txnDate]
  · have hnodup : internals.Nodup := List.Nodup.of_map _ hids
    have hout : t ∉ before := by
      rw [heq] at hnodup
      exact fun hmem => (List.nodup_append.mp hnodup).2.2 t hmem t List.mem_cons_self rfl
    show ¬ internals.idxOf t < internals.idxOf original
    rw [heq, List.idxOf_append_of_notMem hout, List.idxOf_append_of_mem hbefore]
    have hlt := List.idxOf_lt_length_of_mem hbefore
    omega

/-- Of two externals like each other, the first one of the pool is matched if the other is. -/
theorem external_first
    (h : Assignment (exactTerms internals []) internals externals pairs [])
    (hsorted : externals.Pairwise fun a b => a.poolRank ≤ b.poolRank) (hids : (ids externals).Nodup)
    (hin : original ∈ externals) (ht : t ∈ externals) (halike : original.Alike t)
    (hfirst : original.lineRank ≤ t.lineRank) (hpaired : t ∈ pairs.map Prod.snd) :
    original ∈ pairs.map Prod.snd := by
  by_cases hne : original.id = t.id
  · rwa [List.inj_on_of_nodup_map hids hin ht hne]
  obtain ⟨before, after, heq, hbefore⟩ := split_of_rank hsorted hin ht halike hfirst hne
  refine h.first_request rfl ?_ before (t :: after) heq hbefore ?_ hpaired
  · rintro a ⟨⟨key, ha, hkey⟩, -⟩
    exact ⟨⟨key, ha, halike.buildKey.trans hkey⟩, List.not_mem_nil⟩
  · have hnodup : externals.Nodup := List.Nodup.of_map _ hids
    rw [heq] at hnodup
    exact fun hmem => (List.nodup_append.mp hnodup).2.2 t hmem t List.mem_cons_self rfl

/-- The rows of a pool with the key of a row. -/
def keyRows (pool : List NormalisedTransaction) (t : NormalisedTransaction) :
    List NormalisedTransaction :=
  pool.filter fun u => buildKey u = buildKey t

theorem mem_keyRows {pool : List NormalisedTransaction} {t u : NormalisedTransaction} :
    u ∈ keyRows pool t ↔ u ∈ pool ∧ buildKey u = buildKey t := by
  simp [keyRows]

/-- Rows of one key on two sides fit each other, when none of them was rejected. -/
theorem fits_keyRows {a b : NormalisedTransaction} (hkey : (buildKey t).isSome = true)
    (ha : a ∈ keyRows internals t) (hb : b ∈ keyRows externals t) :
    (exactTerms internals []).fits a b := by
  obtain ⟨key, hkey⟩ := Option.isSome_iff_exists.mp hkey
  exact ⟨⟨key, (mem_keyRows.mp ha).2.trans hkey, (mem_keyRows.mp hb).2.trans hkey⟩,
    List.not_mem_nil⟩

/-- Where there is an external for every internal of a key, the internals of the key are matched. -/
theorem internals_matched
    (h : Assignment (exactTerms internals []) internals externals pairs [])
    (hids : (ids externals).Nodup) (hkey : (buildKey t).isSome = true)
    (hle : (keyRows internals t).length ≤ (keyRows externals t).length)
    (hin : original ∈ keyRows internals t) : original ∈ pairs.map Prod.fst := by
  refine h.items_paired rfl ((List.Nodup.of_map _ hids).filter _)
    (fun a ha => (mem_keyRows.mp ha).1) (fun b hb => (mem_keyRows.mp hb).1)
    (fun a ha b hb => fits_keyRows hkey ha hb) ?_ hle original hin
  rintro b hb a ha ⟨⟨key, hown, hkey⟩, -⟩
  exact mem_keyRows.mpr ⟨ha, hown.trans (hkey.symm.trans (mem_keyRows.mp hb).2)⟩

/-- Where there is an internal for every external of a key, the externals of the key are matched. -/
theorem externals_matched
    (h : Assignment (exactTerms internals []) internals externals pairs [])
    (hids : (ids internals).Nodup) (hids' : (ids externals).Nodup)
    (hkey : (buildKey t).isSome = true)
    (hle : (keyRows externals t).length ≤ (keyRows internals t).length)
    (hin : original ∈ keyRows externals t) : original ∈ pairs.map Prod.snd := by
  refine h.requests_paired rfl (List.Nodup.of_map _ hids') ((List.Nodup.of_map _ hids).filter _)
    (fun a ha => (mem_keyRows.mp ha).1) (fun b hb => (mem_keyRows.mp hb).1)
    (fun a ha b hb => fits_keyRows hkey ha hb) ?_ hle original hin
  rintro a ha b hb ⟨⟨key, hown, hkey⟩, -⟩
  exact mem_keyRows.mpr ⟨hb, hkey.trans (hown.symm.trans (mem_keyRows.mp ha).2)⟩

end

/-- The side of a pair from one source. -/
def sideOf (source : Source) (p : NormalisedTransaction × NormalisedTransaction) :
    NormalisedTransaction :=
  match source with
  | .internal => p.1
  | .external => p.2

/-- A matched row and one like it that is matched as well: it comes first in the order of the lines,
or no row of the key is left over. -/
theorem original_paired {pool : Source → List NormalisedTransaction}
    {pairs : List (NormalisedTransaction × NormalisedTransaction)}
    (h : Assignment (exactTerms (pool .internal) []) (pool .internal) (pool .external) pairs [])
    (hsorted : ∀ source, (pool source).Pairwise fun a b => a.poolRank ≤ b.poolRank)
    (hids : ∀ source, (ids (pool source)).Nodup) {source other : Source} (hne : source ≠ other)
    {original t : NormalisedTransaction} (hin : original ∈ pool source)
    (hpaired : t ∈ pairs.map (sideOf source)) (halike : original.Alike t)
    (hfirst : keyRows (pool other) t = [] ∨
      (keyRows (pool source) t).length ≤ (keyRows (pool other) t).length ∨
        original.lineRank ≤ t.lineRank) :
    original ∈ pairs.map (sideOf source) := by
  have hown : original ∈ keyRows (pool source) t := mem_keyRows.mpr ⟨hin, halike.buildKey⟩
  obtain ⟨p, hp, rfl⟩ := List.mem_map.mp hpaired
  obtain ⟨hinternal, ⟨key, hkey, hkey'⟩, -⟩ := h.fits hp
  have hexternal : p.2 ∈ pool .external := h.requests.subset (List.mem_map_of_mem hp)
  cases source with
  | internal =>
    obtain rfl : other = .external := by cases other <;> simp_all
    rcases hfirst with hnone | hle | hfirst
    · have hmem : p.2 ∈ keyRows (pool .external) p.1 :=
        mem_keyRows.mpr ⟨hexternal, hkey'.trans hkey.symm⟩
      exact absurd (hnone ▸ hmem) List.not_mem_nil
    · exact internals_matched h (hids .external) (hkey ▸ rfl) hle hown
    · exact internal_first h (hsorted .internal) (hids .internal) hin hinternal halike hfirst
        (List.mem_map_of_mem hp)
  | external =>
    obtain rfl : other = .internal := by cases other <;> simp_all
    rcases hfirst with hnone | hle | hfirst
    · have hmem : p.1 ∈ keyRows (pool .internal) p.2 :=
        mem_keyRows.mpr ⟨hinternal, hkey.trans hkey'.symm⟩
      exact absurd (hnone ▸ hmem) List.not_mem_nil
    · exact externals_matched h (hids .internal) (hids .external) (hkey' ▸ rfl) hle hown
    · exact external_first h (hsorted .external) (hids .external) hin hexternal halike hfirst
        (List.mem_map_of_mem hp)

/-! ## What was ingested -/

/-- Rows are as they were ingested, and so are files. -/
structure Db.SameIntake (d d' : Db) : Prop where
  rows : d'.transactions.map (·.asIngested) = d.transactions.map (·.asIngested)
  files : d'.files = d.files

namespace Db.SameIntake

variable {d d' d'' : Db}

theorem refl (d : Db) : d.SameIntake d := ⟨rfl, rfl⟩

theorem trans (h : d.SameIntake d') (h' : d'.SameIntake d'') : d.SameIntake d'' :=
  ⟨h'.rows.trans h.rows, h'.files.trans h.files⟩

/-- Whatever was ingested was there before. -/
theorem row_before (h : d.SameIntake d') {t' : NormalisedTransaction} (ht' : t' ∈ d'.transactions) :
    ∃ t ∈ d.transactions, t'.asIngested = t.asIngested := by
  have hmem := List.mem_map_of_mem (f := NormalisedTransaction.asIngested) ht'
  rw [h.rows] at hmem
  obtain ⟨t, ht, heq⟩ := List.mem_map.mp hmem
  exact ⟨t, ht, heq.symm⟩

theorem row_after (h : d.SameIntake d') {t : NormalisedTransaction} (ht : t ∈ d.transactions) :
    ∃ t' ∈ d'.transactions, t'.asIngested = t.asIngested := by
  have hmem := List.mem_map_of_mem (f := NormalisedTransaction.asIngested) ht
  rw [← h.rows] at hmem
  exact List.mem_map.mp hmem

theorem rank (h : d.SameIntake d') {t t' : NormalisedTransaction}
    (ht : t'.asIngested = t.asIngested) : d'.duplicateRank t' = d.duplicateRank t := by
  have hid : t'.id = t.id := asIngested_id ht
  have hfile : t'.ingestionFileId = t.ingestionFileId := congrArg (·.ingestionFileId) ht
  have hline : t'.sourceLineNo = t.sourceLineNo := congrArg (·.sourceLineNo) ht
  unfold Db.duplicateRank Db.ingestedAt? NormalisedTransaction.lineRank
  rw [h.files, hfile, hline, hid]

/-- The row that is kept was kept before. -/
theorem kept (h : d.SameIntake d') {original original' : NormalisedTransaction}
    (hmem : original ∈ d.transactions) (heq : original'.asIngested = original.asIngested)
    (hkept : d'.Kept original') : d.Kept original where
  mem := hmem
  first t ht halike := by
    obtain ⟨t', ht', heq'⟩ := h.row_after ht
    have hlike : t'.Alike original' :=
      (asIngested_alike heq').trans (halike.trans (asIngested_alike heq).symm)
    rw [← h.rank heq, ← h.rank heq']
    exact hkept.first t' ht' hlike

end Db.SameIntake

theorem asIngested_lineRank {t t' : NormalisedTransaction} (h : t'.asIngested = t.asIngested) :
    t'.lineRank = t.lineRank := by
  have hline : t'.sourceLineNo = t.sourceLineNo := congrArg (·.sourceLineNo) h
  unfold NormalisedTransaction.lineRank
  rw [hline, asIngested_id h]

/-- Matching changes nothing of what was ingested. -/
theorem ofMatching_sameIntake {w : RowWrite} (h : w.OfMatching) (d : Db) :
    d.SameIntake (w.apply d) := by
  cases w with
  | transactionStatus id status =>
    refine ⟨?_, rfl⟩
    exact Store.map_updateIn fun _ => rfl
  | insertResult r => exact ⟨rfl, rfl⟩
  | resultStatus id status reviewer => exact ⟨rfl, rfl⟩
  | insertClaim c => exact ⟨rfl, rfl⟩
  | claimResult c r => exact ⟨rfl, rfl⟩
  | releaseClaim c => exact ⟨rfl, rfl⟩
  | insertAudit row => exact ⟨rfl, rfl⟩
  | _ => exact h.elim

/-- A level changes nothing that was ingested. -/
theorem matching_sameIntake {α : Type} {p : Prog α} (h : p.Work RowWrite.OfMatching) (s : Session) :
    p.wp (fun _ s' => s.view.SameIntake s'.view) (fun _ _ => True) s :=
  (Keeps.of_writes (I := fun _ (d : Db) => s.view.SameIntake d) (fun _ _ _ _ hd => hd)
    (fun _ _ d hw hd => Db.SameIntake.trans hd (ofMatching_sameIntake hw d)) h).kept s (.refl _)

/-! ## The rows of a bank -/

/-- Of each set with a matched row the original is matched, and so is that of each copy which
duplicate detection reports. -/
structure Db.MatchesOriginals (d : Db) (bankCode : String) : Prop where
  kept : ∀ t ∈ d.transactions, t.bankCode = bankCode → t.matchStatus = .matched →
    ∀ original, d.Kept original → original.Alike t → original.matchStatus = .matched
  reported : ∀ range, ∀ pair ∈ d.duplicateCopies bankCode range, pair.2.matchStatus = .matched →
    pair.1.matchStatus = .matched

/-- No other row is like it. -/
def Db.Single (d : Db) (t : NormalisedTransaction) : Prop :=
  ∀ u ∈ d.transactions, u.Alike t → u.id = t.id

/-- Of the bank no pair is rejected. -/
def Db.Accepted (d : Db) (bankCode : String) : Prop :=
  ∀ r ∈ d.results, r.status = .rejected →
    ∃ t ∈ d.transactions, t.id = r.internalTransactionId ∧ t.bankCode ≠ bankCode

/-- An unmatched pool: nothing of the bank is matched, claimed or rejected. -/
structure Unworked (bankCode : String) (n : Nat) (d : Db) : Prop where
  ledger : Ledger n d
  identified : Identified n d
  pool : ∀ t ∈ d.transactions, t.bankCode = bankCode →
    t.matchStatus = .unmatched ∧ d.isClaimed t.id = false
  accepted : d.Accepted bankCode

/-- Nothing of the bank is matched or claimed but rows that no other is like. -/
structure Prepared (bankCode : String) (n : Nat) (d : Db) : Prop where
  ledger : Ledger n d
  identified : Identified n d
  pool : ∀ t ∈ d.transactions, t.bankCode = bankCode →
    (t.matchStatus = .unmatched ∧ d.isClaimed t.id = false) ∨
      (t.matchStatus = .matched ∧ d.Single t)
  accepted : d.Accepted bankCode

/-- In no set that a run has to choose from does another row than the original come first in the
order of the lines: a key without counterparts is not matched, and one with as many counterparts as
rows leaves no choice. -/
def Db.OriginalsFirst (d : Db) (bankCode : String) (range : DateRange) : Prop :=
  ∀ source other : Source, source ≠ other → ∀ t ∈ d.findUnmatched bankCode source range,
    (buildKey t).isSome = true →
    keyRows (d.findUnmatched bankCode other range) t = [] ∨
    (keyRows (d.findUnmatched bankCode source range) t).length ≤
      (keyRows (d.findUnmatched bankCode other range) t).length ∨
    ∀ original, d.Kept original → original.Alike t → original.lineRank ≤ t.lineRank

theorem Db.MatchesOriginals.of_kept {n : Nat} {d : Db} {bankCode : String} (h : Ledger n d)
    (hkept : ∀ t ∈ d.transactions, t.bankCode = bankCode → t.matchStatus = .matched →
      ∀ original, d.Kept original → original.Alike t → original.matchStatus = .matched) :
    d.MatchesOriginals bankCode where
  kept := hkept
  reported range pair hpair hmatched := by
    obtain ⟨-, hin, hof⟩ := mem_duplicateCopies h.transactionIds hpair
    obtain ⟨horiginal, hbank⟩ := kept_of_duplicateCopies hpair
    exact hkept pair.2 hin hbank hmatched pair.1 horiginal hof.alike.symm

theorem Unworked.prepared {bankCode : String} {n : Nat} {d : Db} (h : Unworked bankCode n d) :
    Prepared bankCode n d :=
  ⟨h.ledger, h.identified, fun t ht hbank => Or.inl (h.pool t ht hbank), h.accepted⟩

/-- What is matched before the exact stage is matched with its originals. -/
theorem Prepared.matchesOriginals {bankCode : String} {n : Nat} {d : Db} (h : Prepared bankCode n d) :
    d.MatchesOriginals bankCode := by
  refine .of_kept h.ledger fun t ht hbank hmatched original horiginal halike => ?_
  rcases h.pool t ht hbank with ⟨hunmatched, -⟩ | ⟨-, hsingle⟩
  · rw [hunmatched] at hmatched
    cases hmatched
  · rw [h.ledger.transaction_eq horiginal.mem ht (hsingle original horiginal.mem halike)]
    exact hmatched

/-! ## The exact stage -/

section

variable {o : Orchestrator} {bankCode : String} {s : Session}

/-- Of the pools of the bank no pair is rejected. -/
theorem Db.Accepted.rejectedPairs {n : Nat} {d : Db} {range : DateRange} (h : d.Accepted bankCode)
    (hledger : Ledger n d) :
    d.rejectedPairs (ids (d.findUnmatched bankCode .internal range)) = [] := by
  unfold Db.rejectedPairs
  rw [List.map_eq_nil_iff, List.filter_eq_nil_iff]
  intro r hr hcond
  obtain ⟨hstatus, hin⟩ := of_decide_eq_true hcond
  obtain ⟨u, hu, hid⟩ := List.mem_map.mp hin
  obtain ⟨humem, hav⟩ := Db.mem_findUnmatched.mp hu
  obtain ⟨t, ht, htid, hbank⟩ := h r hr hstatus
  obtain rfl := hledger.transaction_eq humem ht (hid.trans htid.symm)
  exact hbank (Db.available_iff.mp hav).1

/-- The pools of the bank are unclaimed. -/
theorem unclaimed_pools {n : Nat} {d : Db} {range : DateRange} (h : Ledger n d) :
    Unclaimed (d.findUnmatched bankCode .internal range) (d.findUnmatched bankCode .external range)
      d where
  internal t ht := (Db.available_iff.mp (Db.mem_findUnmatched.mp ht).2).2.2.2.1
  external t ht := (Db.available_iff.mp (Db.mem_findUnmatched.mp ht).2).2.2.2.1
  disjoint t ht t' ht' hid := by
    obtain ⟨hmem, hav⟩ := Db.mem_findUnmatched.mp ht
    obtain ⟨hmem', hav'⟩ := Db.mem_findUnmatched.mp ht'
    obtain rfl := h.transaction_eq hmem hmem' hid
    have hsource := (Db.available_iff.mp hav).2.1
    rw [(Db.available_iff.mp hav').2.1] at hsource
    cases hsource

/-- What the stage leaves: an assignment of the pools, and exactly its rows newly matched. -/
structure Assigned (bankCode : String) (range : DateRange) (d d' : Db)
    (pairs : List (NormalisedTransaction × NormalisedTransaction)) : Prop where
  assignment : Assignment (exactTerms (d.findUnmatched bankCode .internal range) [])
    (d.findUnmatched bankCode .internal range) (d.findUnmatched bankCode .external range) pairs []
  taken : ∀ t' ∈ d'.transactions, t'.matchStatus = .matched → d.isClaimed t'.id = true ∨
    ∃ source, ∃ t ∈ pairs.map (sideOf source), t'.id = t.id
  matched : ∀ source, ∀ t ∈ pairs.map (sideOf source), ∀ t' ∈ d'.transactions, t'.id = t.id →
    t'.matchStatus = .matched

/-- The exact stage makes an assignment of the pools of its bank. -/
theorem exactStage_assigned (h : Prepared bankCode s.supply s.view) :
    (o.exactStage bankCode).wp (fun _ s' => Ledger s'.supply s'.view ∧
        ∃ pairs, Assigned bankCode o.range s.view s'.view pairs) (fun _ _ => True) s := by
  have hids : ∀ source, (ids (s.view.findUnmatched bankCode source o.range)).Nodup :=
    findUnmatched_nodup bankCode o.range h.ledger.transactionIds
  have hloop : (o.exactStage bankCode).wp (fun out s' => ∃ st pairs turned, out = st.outcome ∧
      ExactLoop (s.view.findUnmatched bankCode .internal o.range)
        (s.view.findUnmatched bankCode .external o.range)
        (s.view.rejectedPairs (ids (s.view.findUnmatched bankCode .internal o.range))) s.view
        (s.view.findUnmatched bankCode .external o.range) st s' pairs turned)
      (fun _ _ => False) s :=
    wp_bind.mpr (wp_pools.mpr (exactRun_loop (hids .internal) (hids .external) h.identified))
  refine ((Accounted.start h.ledger).exactStage.and hloop).mono ?_ fun _ _ _ => trivial
  rintro _ s' ⟨haccounted, st, pairs, turned, -, hst⟩
  have hledger := haccounted.ledger
  have hturned := hst.smooth (fun _ ht => ht) (unclaimed_pools h.ledger)
  have hassignment := hst.assignment
  rw [h.accepted.rejectedPairs h.ledger, hturned] at hassignment
  refine ⟨hledger, pairs, hassignment, ?_, ?_⟩
  · intro t' ht' hmatched
    obtain ⟨r, hholds, -⟩ := (hledger.matched t' ht').mp hmatched
    rcases (hst.claimed t'.id).mp hholds.isClaimed with hold | ⟨p, hp, hid | hid⟩
    · exact Or.inl hold
    · exact Or.inr ⟨.internal, p.1, List.mem_map_of_mem hp, hid⟩
    · exact Or.inr ⟨.external, p.2, List.mem_map_of_mem hp, hid⟩
  · intro source t ht t' ht' hid
    obtain ⟨p, hp, rfl⟩ := List.mem_map.mp ht
    obtain ⟨rows, hresults, hrows, -⟩ := hst.results
    obtain ⟨r, hr, hstatus, hi, he⟩ := Store.forall₂_right hrows p hp
    have hmem : r ∈ s'.view.results := hresults ▸ List.mem_append_right _ hr
    have hside : r.Side t'.id := by
      cases source with
      | internal => exact Or.inl (hid.trans hi.symm)
      | external => exact Or.inr (hid.trans he.symm)
    obtain ⟨r', hholds, hsettled, -⟩ := hledger.covered r hmem (Or.inl hstatus) t'.id hside
    exact (hledger.matched t' ht').mpr ⟨r', hholds, hsettled⟩

/-- The stage matches originals where they come first. -/
theorem exactStage_originals (h : Prepared bankCode s.supply s.view)
    (hfirst : s.view.OriginalsFirst bankCode o.range) :
    (o.exactStage bankCode).wp (fun _ s' => s'.view.MatchesOriginals bankCode)
      (fun _ _ => True) s := by
  have hwork : (o.exactStage bankCode).Work RowWrite.OfMatching :=
    Work.bind (work_pools _ _) fun found =>
      (exactRun_onPools _ found.1 found.2).ofLevel.weaken fun _ => levelWrite_ofMatching
  refine ((exactStage_assigned h).and (matching_sameIntake hwork s)).mono ?_ fun _ _ _ => trivial
  rintro _ s' ⟨⟨hledger, pairs, hassigned⟩, hsame⟩
  refine .of_kept hledger fun t' ht' hbank' hmatched original' hkept halike' => ?_
  obtain ⟨t, ht, heq⟩ := hsame.row_before ht'
  obtain ⟨original, horiginal, heq'⟩ := hsame.row_before hkept.mem
  have hbank : t.bankCode = bankCode := (asIngested_alike heq).bankCode.symm.trans hbank'
  have halike : original.Alike t :=
    (asIngested_alike heq').symm.trans (halike'.trans (asIngested_alike heq))
  -- A row that no other is like is its own original.
  have hsingle : original.id = t.id → original'.matchStatus = .matched := by
    intro hid
    have hid' : original'.id = t'.id :=
      (asIngested_id heq').trans (hid.trans (asIngested_id heq).symm)
    rw [hledger.transaction_eq hkept.mem ht' hid']
    exact hmatched
  rcases h.pool t ht hbank with ⟨-, hfree⟩ | ⟨-, hsingle'⟩
  swap
  · exact hsingle (hsingle' original horiginal halike)
  rcases h.pool original horiginal (halike.bankCode.trans hbank) with
    ⟨hunmatched, hfree'⟩ | ⟨-, hsingle'⟩
  swap
  · exact hsingle (hsingle' t ht halike.symm).symm
  rcases hassigned.taken t' ht' hmatched with hclaimed | ⟨source, u, hu, hid⟩
  · rw [asIngested_id heq, hfree] at hclaimed
    cases hclaimed
  have hpool : ∀ source, ∀ v ∈ pairs.map (sideOf source),
      v ∈ s.view.findUnmatched bankCode source o.range ∧ (buildKey v).isSome = true := by
    intro source v hv
    obtain ⟨p, hp, rfl⟩ := List.mem_map.mp hv
    obtain ⟨hinternal, ⟨key, hkey, hkey'⟩, -⟩ := hassigned.assignment.fits hp
    cases source with
    | internal => exact ⟨hinternal, hkey ▸ rfl⟩
    | external =>
      exact ⟨hassigned.assignment.requests.subset (List.mem_map_of_mem hp), hkey' ▸ rfl⟩
  obtain ⟨hmem, hkey⟩ := hpool source u hu
  obtain ⟨hu', hav⟩ := Db.mem_findUnmatched.mp hmem
  obtain rfl : u = t := h.ledger.transaction_eq hu' ht (hid.symm.trans (asIngested_id heq))
  obtain ⟨-, hsource, -, -, hrange⟩ := Db.available_iff.mp hav
  have hin : original ∈ s.view.findUnmatched bankCode source o.range :=
    Db.mem_findUnmatched.mpr ⟨horiginal, Db.available_iff.mpr
      ⟨halike.bankCode.trans hbank, halike.source.trans hsource, hunmatched, hfree',
        halike.txnDate.symm ▸ hrange⟩⟩
  obtain ⟨other, hne⟩ : ∃ other, source ≠ other := by
    cases source with
    | internal => exact ⟨.external, by decide⟩
    | external => exact ⟨.internal, by decide⟩
  have hpaired : original ∈ pairs.map (sideOf source) := by
    apply original_paired hassigned.assignment
      (fun source => findUnmatched_sorted s.view bankCode source o.range)
      (findUnmatched_nodup bankCode o.range h.ledger.transactionIds) hne hin hu halike
    rcases hfirst source other hne u hmem hkey with hnone | hle | hfirst
    · exact Or.inl hnone
    · exact Or.inr (Or.inl hle)
    · exact Or.inr (Or.inr (hfirst original (hsame.kept horiginal heq' hkept) halike))
  exact hassigned.matched source original hpaired original' hkept.mem (asIngested_id heq')

end

/-! ## The set-based stage -/

section

variable {o : Orchestrator} {bankCode : String} {range : DateRange} {s : Session} {n : Nat} {d : Db}

/-- A row of the bank with the key of one side of a pair is that row, or the other side. -/
theorem Unworked.of_setBased (h : Unworked bankCode n d)
    {p : NormalisedTransaction × NormalisedTransaction}
    (hp : p ∈ setBasedAllowed d bankCode range) {u : NormalisedTransaction}
    (hu : u ∈ d.transactions) (hbank : u.bankCode = bankCode)
    (hrange : range.contains u.txnDate = true) (hkey : keyOf sqlBlank u = keyOf sqlBlank p.1) :
    u = sideOf u.source p := by
  obtain ⟨hunmatched, hfree⟩ := h.pool u hu hbank
  obtain ⟨hmem, -, hint, hext⟩ := mem_setBasedPairs.mp (mem_setBasedAllowed.mp hp).1
  have hsome : (keyOf sqlBlank u).isSome = true := by
    rw [hkey]
    exact (mem_setBasedPool.mp hmem).2.2.2.1
  have hpool : u ∈ setBasedPool d bankCode range :=
    mem_setBasedPool.mpr ⟨hu, hbank, hunmatched, hsome, hrange, hfree⟩
  have hgroup : u ∈ keyGroup (setBasedPool d bankCode range) u.source p.1 :=
    mem_keyGroup.mpr ⟨hpool, hkey, rfl⟩
  cases hsource : u.source with
  | internal =>
    rw [hsource, hint] at hgroup
    exact List.mem_singleton.mp hgroup
  | external =>
    rw [hsource, hext] at hgroup
    exact List.mem_singleton.mp hgroup

/-- The two sides of a pair: rows of the pool with one key and a source each. -/
theorem setBased_side {p : NormalisedTransaction × NormalisedTransaction}
    (hp : p ∈ setBasedAllowed d bankCode range) (source : Source) :
    sideOf source p ∈ setBasedPool d bankCode range ∧ (sideOf source p).source = source ∧
      keyOf sqlBlank (sideOf source p) = keyOf sqlBlank p.1 := by
  have hpair := (mem_setBasedAllowed.mp hp).1
  cases source with
  | internal =>
    obtain ⟨hmem, hsource, -, -⟩ := mem_setBasedPairs.mp hpair
    exact ⟨hmem, hsource, rfl⟩
  | external =>
    obtain ⟨hmem, hkey, hsource⟩ := external_of_mem_setBasedPairs hpair
    exact ⟨hmem, hsource, hkey⟩

/-- What the statement marks are the sides of its pairs. -/
theorem mem_setBasedIds_side {t : Id} :
    t ∈ setBasedIds d bankCode range ↔
      ∃ p ∈ setBasedAllowed d bankCode range, ∃ source, t = (sideOf source p).id := by
  rw [mem_setBasedIds]
  constructor
  · rintro ⟨p, hp, hid | hid⟩
    · exact ⟨p, hp, .internal, hid⟩
    · exact ⟨p, hp, .external, hid⟩
  · rintro ⟨p, hp, source, hid⟩
    cases source with
    | internal => exact ⟨p, hp, Or.inl hid⟩
    | external => exact ⟨p, hp, Or.inr hid⟩

/-- No other row is like one that the statement matches. -/
theorem Unworked.single_setBased (h : Unworked bankCode n d) {t : NormalisedTransaction}
    (ht : t ∈ d.transactions) (hin : t.id ∈ setBasedIds d bankCode range) : d.Single t := by
  obtain ⟨p, hp, source, hid⟩ := mem_setBasedIds_side.mp hin
  obtain ⟨hmem, hsource, hkey⟩ := setBased_side hp source
  obtain ⟨hmem', hbank, -, -, hrange, -⟩ := mem_setBasedPool.mp hmem
  obtain rfl := h.ledger.transaction_eq ht hmem' hid
  intro u hu halike
  have heq := h.of_setBased hp hu (halike.bankCode.trans hbank) (halike.txnDate.symm ▸ hrange)
    ((halike.keyOf sqlBlank).trans hkey)
  rw [halike.source, hsource] at heq
  rw [heq]

/-- The tables once the statement has run. -/
structure SetBased (bankCode : String) (range : DateRange) (d d' : Db) : Prop where
  intake : d.SameIntake d'
  status : ∀ t ∈ d.transactions, ∀ t' ∈ d'.transactions, t'.id = t.id →
    (t.id ∈ setBasedIds d bankCode range → t'.matchStatus = .matched) ∧
      (t.id ∉ setBasedIds d bankCode range → t' = t)
  claims : ∀ t, t ∉ setBasedIds d bankCode range → d'.isClaimed t = d.isClaimed t
  results : ∃ new, d'.results = d.results ++ new ∧ ∀ r ∈ new, r.status = .autoMatched

/-- The statement takes whole keys, and leaves the ledger as it should be. -/
theorem setBasedRun_leaves (run : Id) (h : Ledger s.supply s.view)
    (hidentified : Identified s.supply s.view) :
    (setBasedRun run bankCode range).wp (fun _ s' => Ledger s'.supply s'.view ∧
        Identified s'.supply s'.view ∧ SetBased bankCode range s.view s'.view)
      (fun _ _ => True) s := by
  have hspec := setBasedRun_spec run bankCode range h.transactionIds
  have hwork : (setBasedRun run bankCode range).Work RowWrite.OfMatching :=
    (setBasedRun_ofLevel run range).weaken fun _ => levelWrite_ofMatching
  refine ((hspec.and (setBasedRun_ledger run bankCode range h)).and
    (matching_sameIntake hwork s)).mono ?_
    fun _ _ _ => trivial
  rintro _ s' ⟨⟨⟨hview, hsupply⟩, hledger⟩, hsame⟩
  dsimp only at hview
  have hlength := length_resultRows s.supply (setBasedColumns run s.view bankCode range)
  have hrow : ∀ r ∈ resultRows s.supply (setBasedColumns run s.view bankCode range),
      r.id < s'.supply ∧ r.status = .autoMatched := by
    intro r hr
    obtain ⟨hin, -, hlt⟩ := mem_resultRows hr
    obtain ⟨p, -, heq⟩ := List.mem_map.mp hin
    exact ⟨Nat.lt_of_lt_of_le hlt (by omega), congrArg (·.status) heq.symm⟩
  refine ⟨hledger, ?_, hsame, ?_, ?_, ?_⟩
  · rw [hview]
    refine Identified.setStatus (hidentified.record (by omega) (fun r hr => (hrow r hr).1) ?_ ?_) _
    · intro c hc
      have hlt := (mem_claimRows hc).2.1
      rw [length_claimSides, hlength] at hlt
      exact Nat.lt_of_lt_of_le hlt (by omega)
    · intro c hc r hr
      obtain ⟨side, hside, hlink⟩ := link_claimRows hc
      obtain ⟨row, hmem, hresult⟩ := link_claimSides hside
      obtain rfl : row.id = r := Option.some.inj (hresult.symm.trans (hlink.symm.trans hr))
      exact (hrow row hmem).1
  · intro t ht t' ht' hid
    rw [hview] at ht'
    obtain ⟨old, hold, heq⟩ := Store.mem_updateIn.mp ht'
    have hold' : old.id = t.id := by
      rw [← hid, ← heq]
      split <;> rfl
    obtain rfl := h.transaction_eq hold ht hold'
    constructor
    · intro hin
      rw [← heq, if_pos hin]
    · intro hout
      rw [← heq, if_neg hout]
  · intro t hout
    rw [hview]
    refine Db.isClaimed_record (resultRows s.supply (setBasedColumns run s.view bankCode range))
      fun hin => hout ?_
    rw [transactions_claimRows, transactions_claimSides, flatMap_resultRows fun m =>
      [m.internalTransactionId, m.externalTransactionId], setBasedColumns_sides] at hin
    obtain ⟨p, hp, hid⟩ := List.mem_flatMap.mp hin
    exact mem_setBasedIds.mpr ⟨p, hp, by simpa using hid⟩
  · refine ⟨_, ?_, fun r hr => (hrow r hr).2⟩
    rw [hview]
    rfl

/-- After it the tables are ready for the exact stage. -/
theorem SetBased.prepared {n' : Nat} {d' : Db} (hset : SetBased bankCode range d d')
    (h : Unworked bankCode n d) (hledger : Ledger n' d') (hidentified : Identified n' d') :
    Prepared bankCode n' d' where
  ledger := hledger
  identified := hidentified
  pool t' ht' hbank' := by
    obtain ⟨t, ht, heq⟩ := hset.intake.row_before ht'
    obtain ⟨hin, hout⟩ := hset.status t ht t' ht' (asIngested_id heq)
    by_cases hmem : t.id ∈ setBasedIds d bankCode range
    · refine Or.inr ⟨hin hmem, fun u' hu' halike' => ?_⟩
      obtain ⟨u, hu, heq'⟩ := hset.intake.row_before hu'
      rw [asIngested_id heq', asIngested_id heq]
      exact h.single_setBased ht hmem u hu
        ((asIngested_alike heq').symm.trans (halike'.trans (asIngested_alike heq)))
    · left
      rw [hout hmem] at hbank' ⊢
      rw [hset.claims t.id hmem]
      exact h.pool t ht hbank'
  accepted r hr hrejected := by
    obtain ⟨new, hresults, hnew⟩ := hset.results
    rw [hresults] at hr
    rcases List.mem_append.mp hr with hr | hr
    · obtain ⟨t, ht, hid, hbank⟩ := h.accepted r hr hrejected
      obtain ⟨t', ht', heq⟩ := hset.intake.row_after ht
      exact ⟨t', ht', (asIngested_id heq).trans hid, (asIngested_alike heq).bankCode ▸ hbank⟩
    · rw [hnew r hr] at hrejected
      cases hrejected

/-- What is left of the pools: the rows that the statement did not match. -/
theorem SetBased.mem_pool {d' : Db} (hset : SetBased bankCode range d d') {source : Source}
    {t : NormalisedTransaction} :
    t ∈ d'.findUnmatched bankCode source range ↔
      t ∈ d.findUnmatched bankCode source range ∧ t.id ∉ setBasedIds d bankCode range := by
  simp only [Db.mem_findUnmatched, Db.available_iff]
  constructor
  · rintro ⟨ht', hbank, hsource, hunmatched, hfree, hrange⟩
    obtain ⟨t₀, ht₀, heq⟩ := hset.intake.row_before ht'
    obtain ⟨hin, hout⟩ := hset.status t₀ ht₀ t ht' (asIngested_id heq)
    have hmem : t₀.id ∉ setBasedIds d bankCode range := by
      intro hmem
      rw [hin hmem] at hunmatched
      cases hunmatched
    obtain rfl := hout hmem
    rw [hset.claims t.id hmem] at hfree
    exact ⟨⟨ht₀, hbank, hsource, hunmatched, hfree, hrange⟩, hmem⟩
  · rintro ⟨⟨ht, hbank, hsource, hunmatched, hfree, hrange⟩, hmem⟩
    obtain ⟨t', ht', heq⟩ := hset.intake.row_after ht
    obtain rfl := (hset.status t ht t' ht' (asIngested_id heq)).2 hmem
    refine ⟨ht', hbank, hsource, hunmatched, ?_, hrange⟩
    rw [hset.claims t'.id hmem]
    exact hfree

/-- The statement leaves no more choice than there was. -/
theorem SetBased.originalsFirst {n' : Nat} {d' : Db} (hset : SetBased bankCode range d d')
    (h : Unworked bankCode n d) (hledger : Ledger n' d')
    (hfirst : d.OriginalsFirst bankCode range) : d'.OriginalsFirst bankCode range := by
  intro source other hne t ht hkey
  obtain ⟨ht₀, hout⟩ := hset.mem_pool.mp ht
  have hless : ∀ source, keyRows (d'.findUnmatched bankCode source range) t ⊆
      keyRows (d.findUnmatched bankCode source range) t := by
    intro source u hu
    obtain ⟨hmem, hsame⟩ := mem_keyRows.mp hu
    exact mem_keyRows.mpr ⟨(hset.mem_pool.mp hmem).1, hsame⟩
  -- A row with the key of `t` is not matched by the statement, as `t` would be too.
  have hmore : keyRows (d.findUnmatched bankCode other range) t ⊆
      keyRows (d'.findUnmatched bankCode other range) t := by
    intro u hu
    obtain ⟨hmem, hsame⟩ := mem_keyRows.mp hu
    refine mem_keyRows.mpr ⟨hset.mem_pool.mpr ⟨hmem, fun hin => hout ?_⟩, hsame⟩
    obtain ⟨p, hp, source', hid⟩ := mem_setBasedIds_side.mp hin
    obtain ⟨hside, -, hside'⟩ := setBased_side hp source'
    obtain ⟨hu', -⟩ := Db.mem_findUnmatched.mp hmem
    obtain rfl := h.ledger.transaction_eq hu' (mem_setBasedPool.mp hside).1 hid
    obtain ⟨key, hkey'⟩ := Option.isSome_iff_exists.mp hkey
    have hsql := (keyOf_sqlBlank hkey').trans (keyOf_sqlBlank (hsame.trans hkey')).symm
    obtain ⟨hrow, hav⟩ := Db.mem_findUnmatched.mp ht₀
    obtain ⟨hbank, -, -, -, hrange⟩ := Db.available_iff.mp hav
    have heq := h.of_setBased hp hrow hbank hrange (hsql.trans hside')
    exact mem_setBasedIds_side.mpr ⟨p, hp, t.source, congrArg (·.id) heq⟩
  have hnodup : ∀ {n : Nat} {d : Db}, Ledger n d → ∀ source,
      (keyRows (d.findUnmatched bankCode source range) t).Nodup := fun hledger source =>
    (List.Nodup.of_map _ (findUnmatched_nodup bankCode range hledger.transactionIds source)).filter _
  rcases hfirst source other hne t ht₀ hkey with hnone | hle | hkept
  · exact Or.inl (List.subset_nil.mp (hnone ▸ hless other))
  · have hown := (List.subperm_of_subset (hnodup hledger source) (hless source)).length_le
    have hother := (List.subperm_of_subset (hnodup h.ledger other) hmore).length_le
    exact Or.inr (Or.inl (hown.trans (hle.trans hother)))
  · refine Or.inr (Or.inr fun original' horiginal halike' => ?_)
    obtain ⟨original, hmem, heq⟩ := hset.intake.row_before horiginal.mem
    rw [asIngested_lineRank heq]
    exact hkept original (hset.intake.kept hmem heq horiginal)
      ((asIngested_alike heq).symm.trans halike')

/-- The set-based stage prepares the exact stage. -/
theorem setBasedStage_prepared (h : Unworked bankCode s.supply s.view)
    (hfirst : s.view.OriginalsFirst bankCode o.range) :
    (o.setBasedStage bankCode).wp (fun _ s' => Prepared bankCode s'.supply s'.view ∧
        s'.view.OriginalsFirst bankCode o.range) (fun _ _ => True) s := by
  unfold Orchestrator.setBasedStage
  split
  · refine (setBasedRun_leaves o.run h.ledger h.identified).mono ?_ fun _ _ _ => trivial
    rintro _ s' ⟨hledger, hidentified, hset⟩
    exact ⟨hset.prepared h hledger hidentified, hset.originalsFirst h hledger hfirst⟩
  · exact wp_pure.mpr ⟨h.prepared, hfirst⟩

end

/-! ## Ingestion -/

section

variable {bankCode : String}

theorem unworked_grows : Grows (S := schema) (Unworked bankCode) :=
  fun _ _ _ hn h => { h with ledger := h.ledger.mono hn, identified := h.identified.mono hn }

theorem Unworked.of_same {n : Nat} {d d' : Db} (h : Unworked bankCode n d)
    (hsame : d'.transactions = d.transactions ∧ d'.results = d.results ∧ d'.claims = d.claims) :
    Unworked bankCode n d' := by
  obtain ⟨ht, hr, hc⟩ := hsame
  have hclaimed : ∀ t, d'.isClaimed t = d.isClaimed t := fun t => by
    rw [Db.isClaimed, Db.isClaimed, hc]
  constructor
  · exact h.ledger.of_same ht hr hc
  · exact ⟨⟨hr ▸ h.identified.resultBelow, hc ▸ h.identified.linkBelow⟩,
      hc ▸ h.identified.claimBelow⟩
  · intro t hmem hbank
    rw [hclaimed]
    exact h.pool t (ht ▸ hmem) hbank
  · unfold Db.Accepted
    rw [hr, ht]
    exact h.accepted

theorem insertTransaction_unworked {file n : Nat} {d : Db} {canonical : CanonicalTransaction}
    {raw : Id} (h : Unworked bankCode n d) : Unworked bankCode (n + 1)
      ((RowWrite.insertTransaction (normalisedTransaction file canonical raw n)).apply d) where
  ledger := h.ledger.insertTransaction (Nat.le_refl n) (Nat.le_succ n) (Nat.lt_succ_self n) rfl
  identified := by
    obtain ⟨⟨hresults, hlinks⟩, hclaims⟩ := h.identified.mono (Nat.le_succ n)
    exact ⟨⟨hresults, hlinks⟩, hclaims⟩
  pool t ht hbank := by
    rcases List.mem_append.mp ht with ht | ht
    · exact h.pool t ht hbank
    · rw [List.mem_singleton.mp ht]
      exact ⟨rfl, h.ledger.unclaimed_of_fresh (Nat.le_refl n)⟩
  accepted r hr hrejected := by
    obtain ⟨t, ht, hrow⟩ := h.accepted r hr hrejected
    exact ⟨t, List.mem_append_left _ ht, hrow⟩

/-- Ingestion keeps the pool unmatched. -/
theorem process_unworked (p : IngestionPipeline) (up : Upload) (now : Instant) :
    (p.process up now).Keeps (Unworked bankCode) := by
  apply process_keeps unworked_grows
  · exact fun n w d hw hd => hd.of_same ((ofIntake_leavesMatches hw).same d)
  · exact fun file n d canonical raw hd => insertTransaction_unworked hd
  · intro file
    refine Keeps.of_writes unworked_grows (fun n w d hw hd => ?_) (classifyIngestionFile_work _ _ _)
    exact Unworked.of_same hd ((ofCreation_leavesMatches hw).same d)

end

/-! ## Every run -/

/-- A file, and what it is ingested with. -/
structure Delivery where
  pipeline : IngestionPipeline
  upload : Upload
  now : Instant

def Delivery.operation (file : Delivery) : Operation :=
  .ingest file.pipeline file.upload file.now

/-- The exact levels of a run. -/
def exactLevels (o : Orchestrator) (bankCode : String) : List Operation :=
  [.level o bankCode .setBased, .level o bankCode .exact]

theorem operate_append (c : Committed schema) (ops ops' : List Operation) :
    operate c (ops ++ ops') = operate (operate c ops) ops' :=
  List.foldl_append

theorem operate_exactLevels (c : Committed schema) (o : Orchestrator) (bankCode : String) :
    operate c (exactLevels o bankCode) = (c.serve (Level.setBased.program o bankCode)).serve
      (Level.exact.program o bankCode) := by
  rw [exactLevels, operate, Store.Committed.history, List.foldl_cons, List.foldl_cons, List.foldl_nil,
    Operation.program, Operation.program]

/-- Deliveries leave every row of the bank unmatched. -/
theorem operate_unworked {bankCode : String} {c : Committed schema}
    (h : Unworked bankCode c.supply c.db) (files : List Delivery) :
    Unworked bankCode (operate c (files.map Delivery.operation)).supply
      (operate c (files.map Delivery.operation)).db := by
  induction files generalizing c with
  | nil => exact h
  | cons file files ih =>
    have hfile : file.operation.program.Keeps (Unworked bankCode) :=
      (process_unworked file.pipeline file.upload file.now).bind fun _ => keeps_pure _
    exact ih (hfile.serve unworked_grows h)

section

variable {bankCode : String} {c : Committed schema} {o : Orchestrator}

/-- The set-based level of a run over rows that were only delivered. -/
theorem serve_setBased (h : Unworked bankCode c.supply c.db)
    (hfirst : c.db.OriginalsFirst bankCode o.range) :
    Prepared bankCode (c.serve (Level.setBased.program o bankCode)).supply
        (c.serve (Level.setBased.program o bankCode)).db ∧
      (c.serve (Level.setBased.program o bankCode)).db.OriginalsFirst bankCode o.range := by
  have hset : (Level.setBased.program o bankCode).wp
      (fun _ s' => Prepared bankCode s'.supply s'.view ∧
        Db.OriginalsFirst s'.view bankCode o.range) (fun _ _ => True) c.session :=
    wp_bind.mpr ((setBasedStage_prepared (o := o) (s := c.session) h hfirst).mono
      (fun _ _ h => h) fun _ _ h => h)
  rcases wp.serve (Q := fun n (d : Db) => Prepared bankCode n d ∧ d.OriginalsFirst bankCode o.range)
    (level_sound .setBased).work hset with hdone | ⟨hsame, hsupply⟩
  · exact hdone
  · rw [hsame]
    exact ⟨(unworked_grows _ _ _ hsupply h).prepared, hfirst⟩

theorem serve_exact (h : Prepared bankCode c.supply c.db)
    (hfirst : c.db.OriginalsFirst bankCode o.range) :
    (c.serve (Level.exact.program o bankCode)).db.MatchesOriginals bankCode := by
  have hexact : (Level.exact.program o bankCode).wp
      (fun _ s' => Db.MatchesOriginals s'.view bankCode) (fun _ _ => True) c.session :=
    wp_bind.mpr ((exactStage_originals (o := o) (s := c.session) h hfirst).mono
      (fun _ _ h => h) fun _ _ h => h)
  rcases wp.serve (Q := fun _ (d : Db) => d.MatchesOriginals bankCode)
    (level_sound .exact).work hexact with hdone | ⟨hsame, -⟩
  · exact hdone
  · rw [hsame]
    exact h.matchesOriginals

end

/-- **Matched originals.** Whatever files are ingested into an unmatched pool without rejected pairs,
in whatever order: where the pools of a run leave it no other choice, or put originals first, the
exact levels match the original of every set with a matched row, and no matched row is reported as
a copy of one that is not. -/
theorem exact_matches_originals {bankCode : String} {c : Committed schema}
    (h : Unworked bankCode c.supply c.db) (files : List Delivery) (o : Orchestrator)
    (hfirst : (operate c (files.map Delivery.operation)).db.OriginalsFirst bankCode o.range) :
    (operate c (files.map Delivery.operation ++ exactLevels o bankCode)).db.MatchesOriginals
      bankCode := by
  rw [operate_append, operate_exactLevels]
  obtain ⟨hready, hfirst'⟩ := serve_setBased (operate_unworked h files) hfirst
  exact serve_exact hready hfirst'

/-! The payment of two files, on the second line of the first and on the first line of the second. -/

theorem emptyDay_unworked : Unworked "HDFC" emptyDay.supply emptyDay.db where
  ledger := emptyDay_unclassified.sound.ledger
  identified := ⟨⟨fun _ h => absurd h List.not_mem_nil, fun _ h => absurd h List.not_mem_nil⟩,
    fun _ h => absurd h List.not_mem_nil⟩
  pool _ h := absurd h List.not_mem_nil
  accepted _ h := absurd h List.not_mem_nil

/-- The two files of the ledger, and the statement with the given rows. -/
def spreadPayment (statement : List ParsedRow) : List Delivery :=
  [⟨dayPipeline, { ledgerUpload "0001" with parsed := .ok [dayRow 1 "DR" [], dayRow 2 "CR" []] }, 10⟩,
    ⟨dayPipeline, ledgerUpload "0002", 20⟩, ⟨dayPipeline, dayUpload statement, 30⟩]

/-- The statement has the payment once: the copy of the second file is matched. -/
theorem copy_matched_spreadPayment :
    ¬ ∀ (bankCode : String) (c : Committed schema), Unworked bankCode c.supply c.db →
      ∀ (files : List Delivery) (o : Orchestrator),
        (operate c (files.map Delivery.operation ++ exactLevels o bankCode)).db.MatchesOriginals
          bankCode := by
  intro h
  have hmatches := h "HDFC" emptyDay emptyDay_unworked (spreadPayment [dayRow 1 "CR" []]) stagedRun
  have hreport : ((operate emptyDay ((spreadPayment [dayRow 1 "CR" []]).map Delivery.operation ++
      exactLevels stagedRun "HDFC")).db.duplicateCopies "HDFC" {}).any (fun pair =>
        pair.2.matchStatus = .matched && pair.1.matchStatus = .unmatched) = true := by
    decide +kernel
  obtain ⟨pair, hpair, hstatus⟩ := List.any_eq_true.mp hreport
  simp only [Bool.and_eq_true, decide_eq_true_eq] at hstatus
  have hmatched := hmatches.reported {} pair hpair hstatus.1
  rw [hstatus.2] at hmatched
  cases hmatched

/-- Where the statement has the payment twice, there is nothing to choose. -/
theorem spreadPayment_first :
    (operate emptyDay ((spreadPayment [dayRow 1 "CR" [], dayRow 2 "CR" []]).map
      Delivery.operation)).db.OriginalsFirst "HDFC" stagedRun.range := by
  intro source other hne t ht _
  have hcounts : ∀ t ∈ (operate emptyDay ((spreadPayment [dayRow 1 "CR" [], dayRow 2 "CR" []]).map
      Delivery.operation)).db.findUnmatched "HDFC" source stagedRun.range,
      keyRows ((operate emptyDay ((spreadPayment [dayRow 1 "CR" [], dayRow 2 "CR" []]).map
        Delivery.operation)).db.findUnmatched "HDFC" other stagedRun.range) t = [] ∨
      (keyRows ((operate emptyDay ((spreadPayment [dayRow 1 "CR" [], dayRow 2 "CR" []]).map
        Delivery.operation)).db.findUnmatched "HDFC" source stagedRun.range) t).length ≤
      (keyRows ((operate emptyDay ((spreadPayment [dayRow 1 "CR" [], dayRow 2 "CR" []]).map
        Delivery.operation)).db.findUnmatched "HDFC" other stagedRun.range) t).length := by
    cases source <;> cases other <;> first
      | exact absurd rfl hne
      | decide +kernel
  rcases hcounts t ht with hnone | hle
  · exact Or.inl hnone
  · exact Or.inr (Or.inl hle)

theorem exact_matches_originals_spreadPayment :
    (operate emptyDay ((spreadPayment [dayRow 1 "CR" [], dayRow 2 "CR" []]).map Delivery.operation ++
      exactLevels stagedRun "HDFC")).db.MatchesOriginals "HDFC" :=
  exact_matches_originals emptyDay_unworked (spreadPayment [dayRow 1 "CR" [], dayRow 2 "CR" []])
    stagedRun spreadPayment_first

end Recon
