import ReconEngine.Matching.Exact
import Mathlib.Data.List.Perm.Basic

/-!
# Set-based exact matching

`SetBasedExactStage` is one SQL statement. It pairs the key groups with exactly one available
internal and one available external, writes their results and claims and marks both sides
MATCHED; the groups with more candidates are left to `ExactMatchingStrategy`. A claim conflict, or
counts that do not fit together, fail the run.

**The law** (`setBasedRun_spec`): the stage makes every pair of its snapshot, and no check of it
fails. The counts of a statement fit together because its pairs are disjoint and free when it
starts.

**What it does not establish.** That the snapshot is still the truth when other sessions write in
between. The checks of the stage are there for that case and fail the run.
-/

set_option autoImplicit false

namespace Recon

open Store.Prog hiding pure bind

/-- What the server's `\s` matches: the blanks of ASCII as the C library counts them. -/
def sqlBlank (c : Char) : Bool := [0x09, 0x0a, 0x0b, 0x0c, 0x0d, 0x20].contains c.toNat

/-- `PAIR_AND_CLAIM_SQL`, the rows of `pool`. -/
def setBasedPool (d : Db) (bankCode : String) (range : DateRange) : List NormalisedTransaction :=
  d.transactions.filter fun t =>
    t.bankCode = bankCode && t.matchStatus = .unmatched && (keyOf sqlBlank t).isSome &&
      range.contains t.txnDate && !d.isClaimed t.id

/-- The rows of `pool` with the key of `t`. -/
def keyGroup (pool : List NormalisedTransaction) (source : Source) (t : NormalisedTransaction) :
    List NormalisedTransaction :=
  pool.filter fun u => keyOf sqlBlank u = keyOf sqlBlank t && u.source = source

/-- The rows of `pairs`: the key groups with one internal and one external, each found at its
internal. -/
def setBasedPairs (pool : List NormalisedTransaction) :
    List (NormalisedTransaction × NormalisedTransaction) :=
  pool.filterMap fun t =>
    match t.source, keyGroup pool .internal t, keyGroup pool .external t with
    | .internal, [_], [external] => some (t, external)
    | _, _, _ => none

/-- The rows of `allowed`: the pairs that were not rejected. -/
def setBasedAllowed (d : Db) (bankCode : String) (range : DateRange) :
    List (NormalisedTransaction × NormalisedTransaction) :=
  (setBasedPairs (setBasedPool d bankCode range)).filter fun p =>
    !(d.results.any fun r => r.status = .rejected && r.internalTransactionId = p.1.id &&
      r.externalTransactionId = p.2.id)

/-- The rows that the statement inserts. -/
def setBasedColumns (run : Id) (d : Db) (bankCode : String) (range : DateRange) :
    List MatchColumns :=
  (setBasedAllowed d bankCode range).map fun p => exactColumns run p.1 p.2 1

/-- The transactions that the statement updates. -/
def setBasedIds (d : Db) (bankCode : String) (range : DateRange) : List Id :=
  ids ((setBasedAllowed d bankCode range).map (·.1)) ++
    ids ((setBasedAllowed d bankCode range).map (·.2))

/-- The update of one matched transaction; it counts the rows that are still UNMATCHED. -/
def setBasedUpdate (updated : Nat) (t : Id) : Prog Nat := do
  lockRow (.transaction t)
  let d ← tables
  if d.transactions.any fun row => row.id = t && row.matchStatus = .unmatched then
    put (.transactionStatus t .matched)
    return updated + 1
  else
    return updated

/-- `SetBasedExactStage.run`: the pairs of the statement's snapshot, their results, claims and
statuses, and the check of the three counts. -/
def setBasedRun (run : Id) (bankCode : String) (range : DateRange) : Prog Nat :=
  level
    (fun d => let pool := setBasedPool d bankCode range
      (ids (pool.filter (·.source = .internal)), ids (pool.filter (·.source = .external))))
    fun d => do
      let (rows, claims) ← recordBatch (setBasedColumns run d bankCode range)
      let updated ← (setBasedIds d bankCode range).foldlM setBasedUpdate 0
      let matched := rows.length
      require (claims.length == 2 * matched && updated == 2 * matched)
        (.setBasedExact matched claims.length updated)
      return matched

/-! ## The pairs of the statement -/

/-- The pool of the statement: free rows of the bank with a key. -/
theorem mem_setBasedPool {d : Db} {bankCode : String} {range : DateRange}
    {t : NormalisedTransaction} :
    t ∈ setBasedPool d bankCode range ↔ t ∈ d.transactions ∧ t.bankCode = bankCode ∧
      t.matchStatus = .unmatched ∧ (keyOf sqlBlank t).isSome = true ∧
      range.contains t.txnDate = true ∧ d.isClaimed t.id = false := by
  simp only [setBasedPool, List.mem_filter, Bool.and_eq_true, decide_eq_true_eq, and_assoc,
    Bool.not_eq_true']

/-- The rows of one side under one key. -/
theorem mem_keyGroup {pool : List NormalisedTransaction} {source : Source}
    {t u : NormalisedTransaction} :
    u ∈ keyGroup pool source t ↔
      u ∈ pool ∧ keyOf sqlBlank u = keyOf sqlBlank t ∧ u.source = source := by
  simp only [keyGroup, List.mem_filter, Bool.and_eq_true, decide_eq_true_eq]

theorem keyGroup_congr {pool : List NormalisedTransaction} {source : Source}
    {t t' : NormalisedTransaction} (h : keyOf sqlBlank t = keyOf sqlBlank t') :
    keyGroup pool source t = keyGroup pool source t' := by
  simp only [keyGroup, h]

/-- A pair is a key group with its one internal and its one external. -/
theorem mem_setBasedPairs {pool : List NormalisedTransaction} {i e : NormalisedTransaction} :
    (i, e) ∈ setBasedPairs pool ↔ i ∈ pool ∧ i.source = .internal ∧
      keyGroup pool .internal i = [i] ∧ keyGroup pool .external i = [e] := by
  rw [setBasedPairs, List.mem_filterMap]
  constructor
  · rintro ⟨t, ht, hpair⟩
    split at hpair
    · rename_i i' e' hs hint hext
      obtain ⟨rfl, rfl⟩ := Prod.mk.inj (Option.some.inj hpair)
      -- The row is an internal of its own group, so it is the one internal.
      have hmem := mem_keyGroup.mpr ⟨ht, rfl, hs⟩
      rw [hint] at hmem
      exact ⟨ht, hs, List.mem_singleton.mp hmem ▸ hint, hext⟩
    · cases hpair
  · rintro ⟨hi, hs, hint, hext⟩
    refine ⟨i, hi, ?_⟩
    rw [hs, hint, hext]

/-- A pair is allowed when neither of its sides was rejected for the other. -/
theorem mem_setBasedAllowed {d : Db} {bankCode : String} {range : DateRange}
    {i e : NormalisedTransaction} :
    (i, e) ∈ setBasedAllowed d bankCode range ↔
      (i, e) ∈ setBasedPairs (setBasedPool d bankCode range) ∧ ¬ d.Rejected i.id e.id := by
  simp only [setBasedAllowed, List.mem_filter, Bool.not_eq_true', List.any_eq_false, Db.Rejected,
    Bool.and_eq_true, decide_eq_true_eq, not_exists, not_and, and_assoc]

/-- The external of a pair is in the pool, with the key of the internal. -/
theorem external_of_mem_setBasedPairs {pool : List NormalisedTransaction}
    {i e : NormalisedTransaction} (h : (i, e) ∈ setBasedPairs pool) :
    e ∈ pool ∧ keyOf sqlBlank e = keyOf sqlBlank i ∧ e.source = .external := by
  obtain ⟨-, -, -, hext⟩ := mem_setBasedPairs.mp h
  rw [← mem_keyGroup, hext]
  exact List.mem_singleton_self e

theorem setBasedPairs_nodup {pool : List NormalisedTransaction} (h : pool.Nodup) :
    (setBasedPairs pool).Nodup := by
  refine h.filterMap fun t t' p ht ht' => ?_
  have hrow : ∀ t, p ∈ (match t.source, keyGroup pool .internal t, keyGroup pool .external t with
      | .internal, [_], [external] => some (t, external)
      | _, _, _ => none) → p.1 = t := by
    intro t ht
    split at ht
    · cases ht
      rfl
    · cases ht
  exact (hrow t ht).symm.trans (hrow t' ht')

/-- Two pairs that share a side are one pair. -/
theorem setBasedPairs_disjoint {pool : List NormalisedTransaction}
    (hids : ∀ t ∈ pool, ∀ t' ∈ pool, t.id = t'.id → t = t')
    {p q : NormalisedTransaction × NormalisedTransaction}
    (hp : p ∈ setBasedPairs pool) (hq : q ∈ setBasedPairs pool) (hne : p ≠ q) :
    List.Disjoint [p.1.id, p.2.id] [q.1.id, q.2.id] := by
  obtain ⟨i, e⟩ := p
  obtain ⟨i', e'⟩ := q
  obtain ⟨hi, his, hint, hext⟩ := mem_setBasedPairs.mp hp
  obtain ⟨hi', his', hint', hext'⟩ := mem_setBasedPairs.mp hq
  obtain ⟨he, hkey, hes⟩ := external_of_mem_setBasedPairs hp
  obtain ⟨he', hkey', hes'⟩ := external_of_mem_setBasedPairs hq
  -- The internal determines the pair, and so does the key.
  have hkeys : keyOf sqlBlank i ≠ keyOf sqlBlank i' := by
    intro hk
    have h₁ : keyGroup pool .internal i = keyGroup pool .internal i' := keyGroup_congr hk
    have h₂ : keyGroup pool .external i = keyGroup pool .external i' := keyGroup_congr hk
    rw [hint, hint'] at h₁
    rw [hext, hext'] at h₂
    exact hne (Prod.ext (List.singleton_inj.mp h₁) (List.singleton_inj.mp h₂))
  intro t ht ht'
  simp only [List.mem_cons, List.not_mem_nil, or_false] at ht ht'
  rcases ht with rfl | rfl <;> rcases ht' with h | h
  · exact hkeys (congrArg _ (hids i hi i' hi' h))
  · have := hids i hi e' he' h
    rw [this, hes'] at his
    cases his
  · have := hids e he i' hi' h
    rw [this, his'] at hes
    cases hes
  · exact hkeys (hkey.symm.trans ((congrArg _ (hids e he e' he' h)).trans hkey'))

/-- A reference that is not blank to the exact stage is not blank to the statement. -/
theorem keyOf_sqlBlank {t : NormalisedTransaction} {key : ExactMatchKey}
    (h : buildKey t = some key) : keyOf sqlBlank t = some key := by
  have hblank : ∀ c, sqlBlank c = true → pythonBlank c = true := by
    intro c hc
    simp only [sqlBlank, pythonBlank, List.contains_eq_mem, decide_eq_true_eq, List.mem_cons,
      List.not_mem_nil, or_false] at hc ⊢
    omega
  unfold buildKey keyOf at h
  unfold keyOf
  cases href : t.normalisedReference with
  | none => simp [href] at h
  | some reference =>
    simp only [href, Option.bind_eq_bind, Option.bind_some] at h ⊢
    by_cases hall : reference.toList.all pythonBlank = true
    · simp [hall] at h
    · have hsome : reference.toList.all sqlBlank = false := by
        rw [← Bool.not_eq_true]
        intro hall'
        refine hall (List.all_eq_true.mpr fun c hc => hblank c ?_)
        exact List.all_eq_true.mp hall' c hc
      rw [if_neg hall] at h
      rw [if_neg (by simp [hsome])]
      exact h

/-! ## What the statement does -/

theorem setBasedColumns_sides (run : Id) (d : Db) (bankCode : String) (range : DateRange) :
    ((setBasedColumns run d bankCode range).flatMap fun m =>
      [m.internalTransactionId, m.externalTransactionId]) =
    (setBasedAllowed d bankCode range).flatMap fun p => [p.1.id, p.2.id] := by
  simp only [setBasedColumns, List.flatMap_map, exactColumns]

theorem mem_setBasedIds {d : Db} {bankCode : String} {range : DateRange} {t : Id} :
    t ∈ setBasedIds d bankCode range ↔
      ∃ p ∈ setBasedAllowed d bankCode range, t = p.1.id ∨ t = p.2.id := by
  simp only [setBasedIds, ids, List.map_map, List.mem_append, List.mem_map, Function.comp_apply]
  constructor
  · rintro (⟨p, hp, rfl⟩ | ⟨p, hp, rfl⟩)
    · exact ⟨p, hp, Or.inl rfl⟩
    · exact ⟨p, hp, Or.inr rfl⟩
  · rintro ⟨p, hp, rfl | rfl⟩
    · exact Or.inl ⟨p, hp, rfl⟩
    · exact Or.inr ⟨p, hp, rfl⟩

section

variable {d : Db} {bankCode : String} {range : DateRange}

/-- Both sides of a pair are UNMATCHED rows without a claim. -/
theorem setBasedAllowed_rows {p : NormalisedTransaction × NormalisedTransaction}
    (hp : p ∈ setBasedAllowed d bankCode range) :
    (p.1 ∈ d.transactions ∧ p.1.matchStatus = .unmatched ∧ d.isClaimed p.1.id = false) ∧
      (p.2 ∈ d.transactions ∧ p.2.matchStatus = .unmatched ∧ d.isClaimed p.2.id = false) := by
  have hpair := (mem_setBasedAllowed.mp hp).1
  obtain ⟨h₁, -, hs₁, -, -, hf₁⟩ := mem_setBasedPool.mp (mem_setBasedPairs.mp hpair).1
  obtain ⟨h₂, -, hs₂, -, -, hf₂⟩ := mem_setBasedPool.mp (external_of_mem_setBasedPairs hpair).1
  exact ⟨⟨h₁, hs₁, hf₁⟩, h₂, hs₂, hf₂⟩

/-- No transaction is named twice. -/
theorem setBasedAllowed_sides_nodup (h : (d.transactions.map (·.id)).Nodup) :
    ((setBasedAllowed d bankCode range).flatMap fun p => [p.1.id, p.2.id]).Nodup := by
  have hids : ∀ t ∈ setBasedPool d bankCode range, ∀ t' ∈ setBasedPool d bankCode range,
      t.id = t'.id → t = t' := fun t ht t' ht' =>
    List.inj_on_of_nodup_map h (mem_setBasedPool.mp ht).1 (mem_setBasedPool.mp ht').1
  have hpool : (setBasedPool d bankCode range).Nodup := (List.Nodup.of_map _ h).filter _
  rw [List.nodup_flatMap]
  constructor
  · intro p hp
    have hpair := (mem_setBasedAllowed.mp hp).1
    obtain ⟨he, -, hes⟩ := external_of_mem_setBasedPairs hpair
    obtain ⟨hi, his, -⟩ := mem_setBasedPairs.mp hpair
    have hne : p.1.id ≠ p.2.id := by
      intro heq
      rw [hids _ hi _ he heq, hes] at his
      cases his
    simpa using hne
  · refine ((setBasedPairs_nodup hpool).filter _).pairwise_of_forall_ne ?_
    intro p hp q hq hne
    exact setBasedPairs_disjoint hids (List.mem_of_mem_filter hp) (List.mem_of_mem_filter hq) hne

theorem setBasedIds_nodup (h : (d.transactions.map (·.id)).Nodup) :
    (setBasedIds d bankCode range).Nodup := by
  have hperm := List.map_append_flatMap_perm (setBasedAllowed d bankCode range)
    (fun p => p.1.id) fun p => [p.2.id]
  rw [← List.map_eq_flatMap] at hperm
  have hids : setBasedIds d bankCode range = (setBasedAllowed d bankCode range).map (fun p => p.1.id)
      ++ (setBasedAllowed d bankCode range).map fun p => p.2.id := by
    simp only [setBasedIds, ids, List.map_map]
    rfl
  rw [hids]
  exact hperm.nodup_iff.mpr (setBasedAllowed_sides_nodup h)

/-- The pairs of the statement are free when it starts. -/
theorem setBased_free (h : (d.transactions.map (·.id)).Nodup) (run : Id) (k : Nat) :
    d.Free (claimSides (resultRows k (setBasedColumns run d bankCode range))) := by
  have hsides : (claimSides (resultRows k (setBasedColumns run d bankCode range))).map
      (·.transaction) = (setBasedAllowed d bankCode range).flatMap fun p => [p.1.id, p.2.id] := by
    rw [transactions_claimSides, flatMap_resultRows fun m =>
      [m.internalTransactionId, m.externalTransactionId], setBasedColumns_sides]
  refine ⟨hsides ▸ setBasedAllowed_sides_nodup h, fun side hside => ?_⟩
  have hmem := List.mem_map_of_mem (f := fun side : ClaimSide => side.transaction) hside
  rw [hsides] at hmem
  obtain ⟨p, hp, ht⟩ := List.mem_flatMap.mp hmem
  obtain ⟨⟨-, -, hf₁⟩, -, -, hf₂⟩ := setBasedAllowed_rows hp
  simp only [List.mem_cons, List.not_mem_nil, or_false] at ht
  rcases ht with ht | ht
  · exact ht ▸ hf₁
  · exact ht ▸ hf₂

end

/-- The updates mark every row that is UNMATCHED and count it. -/
theorem setBasedUpdates_spec : ∀ (ts : List Id) (k : Nat) (s : Session), ts.Nodup →
    (∀ t ∈ ts, ∃ row ∈ s.view.transactions, row.id = t ∧ row.matchStatus = .unmatched) →
    (ts.foldlM setBasedUpdate k).wp
      (fun k' s' => k' = k + ts.length ∧ s'.view = s.view.setStatus .matched ts ∧
        s'.supply = s.supply)
      (fun _ _ => False) s
  | [], k, s, _, _ => ⟨rfl, (Db.setStatus_no_ids _ _).symm, rfl⟩
  | t :: ts, k, s, hnodup, hrows => by
    rw [List.nodup_cons] at hnodup
    obtain ⟨row, hrow, hid, hst⟩ := hrows t List.mem_cons_self
    have hany : (s.view.transactions.any fun row => row.id = t && row.matchStatus = .unmatched) =
        true :=
      List.any_eq_true.mpr ⟨row, hrow, by simp [hid, hst]⟩
    simp only [List.foldlM_cons, setBasedUpdate, bind_eq, pure_eq, wp_bind, wp_lockRow, wp_tables,
      hany, if_true, wp_put, wp_pure]
    have hview : (s.write (RowWrite.transactionStatus t .matched)).view =
        s.view.setStatus .matched [t] := Store.Session.view_write s _
    refine (setBasedUpdates_spec ts (k + 1) _ hnodup.2 fun t' ht' => ?_).mono ?_ fun _ _ h => h
    · rw [hview]
      obtain ⟨row', hrow', hid', hst'⟩ := hrows t' (List.mem_cons_of_mem t ht')
      refine ⟨row', List.mem_map.mpr ⟨row', hrow', if_neg fun hin => ?_⟩, hid', hst'⟩
      exact hnodup.1 ((hid'.symm.trans (List.mem_singleton.mp hin)) ▸ ht')
    · rintro k' s' ⟨rfl, hview', hsupply⟩
      refine ⟨by rw [List.length_cons]; omega, ?_, hsupply⟩
      rw [hview', hview]
      exact Db.setStatus_setStatus .matched [t] ts s.view

/-- The stage makes every pair of its snapshot, and no check of it fails. -/
theorem setBasedRun_spec (run : Id) (bankCode : String) (range : DateRange) {s : Session}
    (h : (s.view.transactions.map (·.id)).Nodup) :
    (setBasedRun run bankCode range).wp
      (fun _ s' =>
        let rows := resultRows s.supply (setBasedColumns run s.view bankCode range)
        s'.view = (s.view.record rows
          (claimRows (s.supply + (setBasedColumns run s.view bankCode range).length)
            (claimSides rows))).setStatus .matched (setBasedIds s.view bankCode range) ∧
        s'.supply = s.supply + 3 * (setBasedColumns run s.view bankCode range).length)
      (fun _ _ => False) s := by
  have hfree : s.view.Free (claimSides (resultRows s.supply
      (setBasedColumns run s.view bankCode range))) := setBased_free h run s.supply
  simp only [setBasedRun, bind_eq, wp_bind, wp_level]
  refine (recordBatch_spec (setBasedColumns run s.view bankCode range) s).mono ?_
    fun e s' he => he.1 hfree
  rintro ⟨rows, claims⟩ s' ⟨hrows, -, hclaims, hview, hsupply⟩
  dsimp only at hrows hclaims hview
  subst hrows hclaims
  dsimp only
  refine (setBasedUpdates_spec _ 0 s' (setBasedIds_nodup h) fun t ht => ?_).mono ?_ fun _ _ h => h
  · obtain ⟨p, hp, hpt⟩ := mem_setBasedIds.mp ht
    obtain ⟨⟨h₁, hs₁, -⟩, h₂, hs₂, -⟩ := setBasedAllowed_rows hp
    rw [hview]
    rcases hpt with rfl | rfl
    · exact ⟨p.1, h₁, rfl, hs₁⟩
    · exact ⟨p.2, h₂, rfl, hs₂⟩
  · rintro k s'' ⟨rfl, hview', hsupply'⟩
    -- Two claims and two updates for every pair.
    have hcount : (claimRows (s.supply + (setBasedColumns run s.view bankCode range).length)
        (claimSides (resultRows s.supply (setBasedColumns run s.view bankCode range)))).length =
          2 * (resultRows s.supply (setBasedColumns run s.view bankCode range)).length := by
      rw [length_claimRows, length_claimSides]
    have hupdated : 0 + (setBasedIds s.view bankCode range).length =
        2 * (resultRows s.supply (setBasedColumns run s.view bankCode range)).length := by
      simp only [setBasedIds, ids, length_resultRows, setBasedColumns, List.length_append,
        List.length_map]
      omega
    simp only [wp_require, hcount, hupdated, beq_self_eq_true, Bool.and_self, if_true]
    exact ⟨hview'.trans (congrArg _ hview), hsupply'.trans hsupply⟩

/-- The stage keeps the invariant. -/
theorem setBasedRun_ledger (run : Id) (bankCode : String) (range : DateRange) {s : Session}
    (h : Ledger s.supply s.view) :
    (setBasedRun run bankCode range).wp (fun _ s' => Ledger s'.supply s'.view)
      (fun _ _ => True) s := by
  refine (setBasedRun_spec run bankCode range h.transactionIds).mono ?_ fun _ _ h => h.elim
  rintro matched s' ⟨hview, hsupply⟩
  let ms := setBasedColumns run s.view bankCode range
  let pool := setBasedIds s.view bankCode range
  have hsides : ∀ m ∈ ms, m.internalTransactionId ∈ pool ∧ m.externalTransactionId ∈ pool ∧
      m.status = .autoMatched := by
    intro m hm
    obtain ⟨p, hp, rfl⟩ := List.mem_map.mp hm
    exact ⟨mem_setBasedIds.mpr ⟨p, hp, Or.inl rfl⟩, mem_setBasedIds.mpr ⟨p, hp, Or.inr rfl⟩, rfl⟩
  have hstart : Workable pool [] (s.supply + 3 * ms.length) s.view := by
    refine ⟨?_, fun t ht => ?_⟩
    · rw [Db.setStatus_no_ids]
      exact h.mono (Nat.le_add_right _ _)
    · obtain ⟨p, hp, hpt⟩ := mem_setBasedIds.mp ht
      obtain ⟨⟨h₁, hs₁, -⟩, h₂, hs₂, -⟩ := setBasedAllowed_rows hp
      rcases hpt with rfl | rfl
      · exact ⟨p.1, h₁, rfl, by rw [hs₁]; decide⟩
      · exact ⟨p.2, h₂, rfl, by rw [hs₂]; decide⟩
  have hbatch := hstart.batch (k := s.supply + ms.length) (resultRows_nodup s.supply ms)
    ?_ ?_ ?_ (setBased_free h.transactionIds run s.supply) ?_
  · -- The pending statuses are those that the statement has written.
    have hmarks : ∀ t, t ∈ [] ++ (resultRows s.supply ms).flatMap (·.marks) ↔
        t ∈ pool ++ [] := by
      intro t
      rw [List.nil_append, List.append_nil, flatMap_resultRows MatchColumns.marks,
        List.mem_flatMap, mem_setBasedIds]
      constructor
      · rintro ⟨m, hm, ht⟩
        obtain ⟨p, hp, rfl⟩ := List.mem_map.mp hm
        exact ⟨p, hp, by simpa [MatchColumns.marks, exactColumns] using ht⟩
      · rintro ⟨p, hp, ht⟩
        exact ⟨_, List.mem_map_of_mem hp, by simpa [MatchColumns.marks, exactColumns] using ht⟩
    rw [hview, hsupply]
    exact (hbatch.congr_marks hmarks).written.of_nil
  · intro r hr
    obtain ⟨-, hge, hlt⟩ := mem_resultRows hr
    refine ⟨Nat.lt_of_lt_of_le hlt (by omega), fun old hold => Nat.ne_of_lt (Nat.lt_of_lt_of_le (h.resultBelow old hold) hge)⟩
  · rw [length_resultRows]
    omega
  · exact fun c hc => Nat.lt_of_lt_of_le (h.claimBelow c hc) (Nat.le_add_right _ _)
  · intro r hr
    obtain ⟨hi, he, hs⟩ := hsides _ (mem_resultRows hr).1
    exact ⟨hi, he, by rw [hs]; decide⟩

/-- The stage makes only pairs that its snapshot does not reject. -/
theorem setBasedRun_respects (run : Id) (bankCode : String) (range : DateRange) :
    RespectsRejections (setBasedRun run bankCode range) := by
  refine Or.inr ⟨_, _, rfl, fun d => ?_⟩
  refine Work.bind (recordBatch_work (fun m => m.status ≠ .rejected ∧
    m.internalTransactionId ∈ ids ((setBasedPool d bankCode range).filter (·.source = .internal)) ∧
    m.externalTransactionId ∈ ids ((setBasedPool d bankCode range).filter (·.source = .external)) ∧
    ¬ d.Rejected m.internalTransactionId m.externalTransactionId)
    (fun _ => trivial) (fun r hr => hr) ?_) fun out =>
      Work.bind (Work.foldlM _ _ fun k t _ => ?_) fun k =>
      Work.bind (work_require _ _) fun _ => work_pure _
  · intro m hm
    obtain ⟨⟨i, e⟩, hp, rfl⟩ := List.mem_map.mp hm
    obtain ⟨hpair, hrej⟩ := mem_setBasedAllowed.mp hp
    obtain ⟨hi, his, -⟩ := mem_setBasedPairs.mp hpair
    obtain ⟨he, -, hes⟩ := external_of_mem_setBasedPairs hpair
    refine ⟨nofun, ?_, ?_, hrej⟩
    · exact List.mem_map_of_mem (List.mem_filter.mpr ⟨hi, decide_eq_true his⟩)
    · exact List.mem_map_of_mem (List.mem_filter.mpr ⟨he, decide_eq_true hes⟩)
  · refine Work.bind (work_lockRow _) fun _ => Work.bind work_tables fun d' => ?_
    split
    · exact Work.bind (work_put.mpr trivial) fun _ => work_pure _
    · exact work_pure _

end Recon
