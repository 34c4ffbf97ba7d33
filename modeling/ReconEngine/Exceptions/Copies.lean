import ReconEngine.Exceptions.Classifier

/-!
# Copies and originals

Duplicate detection orders the rows of a key by ingestion time, source line and identifier, and
keeps the first of them. The order is that of a rank, in which an absent value comes last, so the
original of a copy has the smaller rank. A copy and its original agree on everything but the file,
the line and what no duplicate depends on.

**The laws** (`mem_duplicateCopies`, `exists_duplicateGroup`, `kept_of_duplicateCopies`): what is
reported as a copy is one, every copy is in the group of its original, and the original that a copy
names is the row that is kept.

**What they do not establish.** Which row is the original depends on what has been ingested so far;
a file that arrives later may change it. `Histories.Duplicates` says what survives that.
-/

set_option autoImplicit false

namespace Recon

open Store (chunksOf groupsOn)

/-! ## The order of a set -/

/-- `ORDER BY ingested_at, source_line_no, id` as a rank. -/
def Db.duplicateRank (d : Db) (t : NormalisedTransaction) : (Bool ×ₗ Int) ×ₗ (Bool ×ₗ Int) ×ₗ Id :=
  toLex (lastIfAbsent (d.ingestedAt? t.ingestionFileId), t.lineRank)

/-- The order of duplicate detection is that of the rank. -/
theorem duplicateOrder_iff (d : Db) (a b : NormalisedTransaction) :
    d.duplicateOrder a b = true ↔ d.duplicateRank a ≤ d.duplicateRank b := by
  unfold Db.duplicateOrder Db.duplicateRank
  rw [nullsLast_isLE_iff, lineOrder_iff, Prod.Lex.toLex_le_toLex]

/-! ## Copies -/

/-- The rows agree on what duplicates share. -/
structure NormalisedTransaction.Alike (a b : NormalisedTransaction) : Prop where
  source : a.source = b.source
  bankCode : a.bankCode = b.bankCode
  reference : a.normalisedReference = b.normalisedReference
  amountMinor : a.amountMinor = b.amountMinor
  currency : a.currency = b.currency
  direction : a.direction = b.direction
  txnDate : a.txnDate = b.txnDate

theorem NormalisedTransaction.Alike.trans {a b c : NormalisedTransaction} (h : a.Alike b)
    (h' : b.Alike c) : a.Alike c where
  source := h.source.trans h'.source
  bankCode := h.bankCode.trans h'.bankCode
  reference := h.reference.trans h'.reference
  amountMinor := h.amountMinor.trans h'.amountMinor
  currency := h.currency.trans h'.currency
  direction := h.direction.trans h'.direction
  txnDate := h.txnDate.trans h'.txnDate

/-- Rows of one bank with one key are alike. -/
theorem alike_of_duplicateKey {a b : NormalisedTransaction} (hbank : a.bankCode = b.bankCode)
    {key : DuplicateKey} (ha : duplicateKey a = some key) (hb : duplicateKey b = some key) :
    a.Alike b := by
  have hkey : ∀ {t : NormalisedTransaction}, duplicateKey t = some key →
      t.normalisedReference = some key.reference ∧
        key = ⟨t.source, key.reference, t.amountMinor, t.currency, t.direction, t.txnDate⟩ := by
    intro t ht
    obtain ⟨reference, href, rfl⟩ := Option.map_eq_some_iff.mp ht
    exact ⟨(Option.filter_eq_some_iff.mp href).1, rfl⟩
  obtain ⟨hra, hka⟩ := hkey ha
  obtain ⟨hrb, hkb⟩ := hkey hb
  have heq := hka.symm.trans hkb
  injection heq with hs _ hamount hcurrency hdirection hdate
  exact ⟨hs, hbank, hra.trans hrb.symm, hamount, hcurrency, hdirection, hdate⟩

/-- `copy` came after `original`, of known files. -/
structure Db.CopyOf (d : Db) (copy original : NormalisedTransaction) : Prop where
  alike : copy.Alike original
  copyFile : (d.ingestedAt? copy.ingestionFileId).isSome
  originalFile : (d.ingestedAt? original.ingestionFileId).isSome
  later : d.duplicateRank original < d.duplicateRank copy

section

variable {d : Db} {bankCode : String} {range : DateRange}

/-- The rows of the keys come in the order of their ranks. -/
theorem duplicateMembers_sorted (keys : List DuplicateKey) :
    (d.duplicateMembers bankCode keys).Pairwise fun a b => d.duplicateRank a ≤ d.duplicateRank b := by
  have htotal : Std.Total fun a b : NormalisedTransaction => d.duplicateOrder a b = true :=
    ⟨fun a b => by simp only [duplicateOrder_iff]; exact le_total _ _⟩
  have htrans : IsTrans NormalisedTransaction fun a b => d.duplicateOrder a b = true :=
    ⟨fun a b c => by simp only [duplicateOrder_iff]; exact le_trans⟩
  refine (List.pairwise_insertionSort _ _).imp fun {a b} h => ?_
  exact (duplicateOrder_iff d a b).mp h

theorem duplicateMembers_iff {keys : List DuplicateKey} {t : NormalisedTransaction} :
    t ∈ d.duplicateMembers bankCode keys ↔ t ∈ d.transactions ∧ t.bankCode = bankCode ∧
      (duplicateKey t).any keys.contains = true ∧
        (d.ingestedAt? t.ingestionFileId).isSome = true := by
  simp only [Db.duplicateMembers, List.mem_insertionSort, List.mem_filter, decide_eq_true_eq]

/-- A copy is in the group of its original, which is the first row of the group. -/
theorem exists_duplicateGroup {pair : NormalisedTransaction × NormalisedTransaction}
    (h : pair ∈ d.duplicateCopies bankCode range) :
    ∃ keys key copies, (d.duplicateMembers bankCode keys).filter (duplicateKey · = key) =
      pair.1 :: copies ∧ pair.2 ∈ copies := by
  obtain ⟨keys, -, h⟩ := List.mem_flatMap.mp h
  obtain ⟨group, hgroup, h⟩ := List.mem_flatMap.mp h
  have hrows := Store.rows_of_mem_groupsOn hgroup
  split at h
  · exact absurd h List.not_mem_nil
  · rename_i original copies hcopies
    obtain ⟨copy, hcopy, rfl⟩ := List.mem_map.mp h
    exact ⟨keys, group.1, copies, hrows.symm.trans hcopies, hcopy⟩

/-- What duplicate detection reports as a copy is one, of the row it names as the original. -/
theorem mem_duplicateCopies (hids : (d.transactions.map (·.id)).Nodup)
    {pair : NormalisedTransaction × NormalisedTransaction}
    (h : pair ∈ d.duplicateCopies bankCode range) :
    pair.1 ∈ d.transactions ∧ pair.2 ∈ d.transactions ∧ d.CopyOf pair.2 pair.1 := by
  obtain ⟨keys, group, copies, hgroup, hcopy⟩ := exists_duplicateGroup h
  have hmember : ∀ t ∈ pair.1 :: copies, t ∈ d.transactions ∧ t.bankCode = bankCode ∧
      (∃ key, duplicateKey t = some key) ∧ duplicateKey t = group ∧
      (d.ingestedAt? t.ingestionFileId).isSome = true := by
    intro t ht
    rw [← hgroup] at ht
    obtain ⟨hin, hkey⟩ := List.mem_filter.mp ht
    obtain ⟨hmem, hbank, hsome, hfile⟩ := duplicateMembers_iff.mp hin
    refine ⟨hmem, hbank, ?_, of_decide_eq_true hkey, hfile⟩
    cases hdk : duplicateKey t with
    | none => simp [hdk] at hsome
    | some key => exact ⟨key, rfl⟩
  have hsorted : (pair.1 :: copies).Pairwise fun a b => d.duplicateRank a ≤ d.duplicateRank b :=
    hgroup ▸ (duplicateMembers_sorted keys).filter _
  have hnodup : ((pair.1 :: copies).map (·.id)).Nodup := by
    rw [← hgroup]
    have hmembers : ((d.duplicateMembers bankCode keys).map (·.id)).Nodup :=
      ((List.perm_insertionSort _ _).map _).nodup_iff.mpr
        (hids.sublist (List.filter_sublist.map _))
    exact hmembers.sublist (List.filter_sublist.map _)
  obtain ⟨horiginal, hbank, ⟨key, hkey⟩, hgroup₁, hfile⟩ := hmember pair.1 List.mem_cons_self
  obtain ⟨hin, hbank', -, hgroup₂, hfile'⟩ := hmember pair.2 (List.mem_cons_of_mem _ hcopy)
  refine ⟨horiginal, hin, ?_, hfile', hfile, ?_⟩
  · exact alike_of_duplicateKey (hbank'.trans hbank.symm) (hgroup₂.trans (hgroup₁.symm.trans hkey))
      hkey
  · refine lt_of_le_of_ne ((List.pairwise_cons.mp hsorted).1 pair.2 hcopy) fun heq => ?_
    -- Rows of one rank are one row.
    have hid : pair.1.id = pair.2.id := congrArg (fun rank => (ofLex (ofLex rank).2).2) heq
    exact (List.nodup_cons.mp hnodup).1 (List.mem_map.mpr ⟨pair.2, hcopy, hid.symm⟩)

/-- The row that duplicate detection keeps of those like it. -/
structure Db.Kept (d : Db) (original : NormalisedTransaction) : Prop where
  mem : original ∈ d.transactions
  first : ∀ t ∈ d.transactions, t.Alike original → d.duplicateRank original ≤ d.duplicateRank t

/-- The original of a reported copy is the row that is kept. -/
theorem kept_of_duplicateCopies {pair : NormalisedTransaction × NormalisedTransaction}
    (h : pair ∈ d.duplicateCopies bankCode range) : d.Kept pair.1 ∧ pair.2.bankCode = bankCode := by
  obtain ⟨keys, group, copies, hgroup, hcopy⟩ := exists_duplicateGroup h
  have hmember : ∀ t ∈ pair.1 :: copies, t ∈ d.duplicateMembers bankCode keys ∧
      duplicateKey t = group := by
    intro t ht
    rw [← hgroup] at ht
    obtain ⟨hin, hkey⟩ := List.mem_filter.mp ht
    exact ⟨hin, of_decide_eq_true hkey⟩
  obtain ⟨hin, hkey⟩ := hmember pair.1 List.mem_cons_self
  obtain ⟨hmem, hbank, hsome, hfile⟩ := duplicateMembers_iff.mp hin
  have hbank' := (duplicateMembers_iff.mp (hmember pair.2 (List.mem_cons_of_mem _ hcopy)).1).2.1
  refine ⟨⟨hmem, fun t ht halike => ?_⟩, hbank'⟩
  have hsorted : (pair.1 :: copies).Pairwise fun a b => d.duplicateRank a ≤ d.duplicateRank b :=
    hgroup ▸ (duplicateMembers_sorted keys).filter _
  have hsame : duplicateKey t = duplicateKey pair.1 := by
    unfold duplicateKey
    rw [halike.reference, halike.source, halike.amountMinor, halike.currency, halike.direction,
      halike.txnDate]
  cases hfile' : d.ingestedAt? t.ingestionFileId with
  | none =>
    -- A row of no known file comes last.
    obtain ⟨at', hat⟩ := Option.isSome_iff_exists.mp hfile
    unfold Db.duplicateRank
    rw [hfile', hat, Prod.Lex.toLex_le_toLex]
    exact Or.inl (by simp [lastIfAbsent, Prod.Lex.toLex_lt_toLex])
  | some at' =>
    have hrow : t ∈ pair.1 :: copies := by
      rw [← hgroup]
      refine List.mem_filter.mpr ⟨duplicateMembers_iff.mpr ⟨ht, halike.bankCode.trans hbank, ?_, ?_⟩,
        decide_eq_true (hsame.trans hkey)⟩
      · rw [hsame]
        exact hsome
      · rw [hfile']
        rfl
    rcases List.mem_cons.mp hrow with rfl | hrow
    · exact le_refl _
    · exact (List.pairwise_cons.mp hsorted).1 t hrow

end

end Recon
