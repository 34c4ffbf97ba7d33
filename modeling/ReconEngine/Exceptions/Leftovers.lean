import ReconEngine.Exceptions.Classifier
import ReconEngine.Exceptions.Copies
import ReconEngine.Store.Requests
import ReconEngine.Traversal.Except
import Mathlib.Data.List.Dedup

/-!
# Every leftover is classified

`classify_unmatched` builds candidates from what matching has left. They are a partition: each
leftover is in one candidate, as a side of a pair, as a single, or as a copy of a duplicate. A
candidate whose key exists is skipped, which loses nothing because an exception names what its key
is about (`Db.Keyed`).

**The law** (`leftovers_classified`): for every set of leftovers, the candidates name each of them
once, their keys are distinct, and after the classification every leftover is covered by an
exception.

**What it does not establish.** That an exception which already held the key is open, or that its
category is what the analysis would say now: see `Histories.OpenLeftovers`.
-/

set_option autoImplicit false

namespace Recon

open Store
open Store.Prog hiding pure bind
open Traversal (exists_mapM_ok flatMap_of_mapM forall_of_mapM)

/-! ## Pairing up -/

/-- One external either changes nothing or pairs up with an internal that is still free. -/
theorem pairTurn_cases {ctx : PairContext} {internals : List NormalisedTransaction}
    {paired paired' : List LeftoverPair} {external : NormalisedTransaction}
    (h : pairTurn ctx internals paired external = .ok paired') :
    paired' = paired ∨ ∃ internal finding, paired' = paired ++ [⟨internal, external, finding⟩] ∧
      internal ∈ internals ∧ internal.id ∉ paired.map (·.internal.id) ∧
        ∃ findings, analysePair internal external ctx false = .ok findings ∧ finding ∈ findings := by
  unfold pairTurn at h
  split at h
  · rename_i internal hpeers
    by_cases htaken : internal.id ∈ paired.map (·.internal.id)
    · rw [if_pos htaken] at h
      exact .inl (Except.ok.inj h).symm
    · rw [if_neg htaken] at h
      obtain ⟨findings, hfindings, h⟩ := except_bind_ok h
      cases findings with
      | nil => exact .inl (Except.ok.inj h).symm
      | cons finding _ =>
        refine .inr ⟨internal, finding, (Except.ok.inj h).symm, ?_, htaken, _, hfindings,
          List.mem_cons_self⟩
        exact (List.mem_filter.mp (hpeers ▸ List.mem_singleton_self internal)).1
  · exact .inl (Except.ok.inj h).symm

/-- The pairs of the loop: the internals are distinct and come from the pool, and the externals come
in the order of the pool. -/
theorem pairTurns_spec {ctx : PairContext} {internals : List NormalisedTransaction} :
    ∀ {externals : List NormalisedTransaction} {paired paired' : List LeftoverPair},
      externals.foldlM (pairTurn ctx internals) paired = .ok paired' →
      (paired.map (·.internal.id)).Nodup → (∀ p ∈ paired, p.internal ∈ internals) →
        (paired'.map (·.internal.id)).Nodup ∧ (∀ p ∈ paired', p.internal ∈ internals) ∧
          ∃ new, paired' = paired ++ new ∧ (new.map (·.external)).Sublist externals
  | [], paired, paired', h, hnodup, hin => by
    cases h
    exact ⟨hnodup, hin, [], (List.append_nil _).symm, List.Sublist.refl _⟩
  | external :: externals, paired, paired', h, hnodup, hin => by
    rw [List.foldlM_cons] at h
    obtain ⟨next, hnext, hrest⟩ := except_bind_ok h
    rcases pairTurn_cases hnext with rfl | ⟨internal, finding, rfl, hinternal, hfree, -⟩
    · obtain ⟨hnodup', hin', new, hnew, hsub⟩ := pairTurns_spec hrest hnodup hin
      exact ⟨hnodup', hin', new, hnew, hsub.cons external⟩
    · have hstep : ((paired ++ [(⟨internal, external, finding⟩ : LeftoverPair)]).map
          (·.internal.id)).Nodup := by
        rw [List.map_append, List.nodup_append]
        refine ⟨hnodup, List.nodup_singleton _, fun a ha b hb heq => hfree ?_⟩
        obtain rfl : b = internal.id := List.mem_singleton.mp hb
        exact heq ▸ ha
      have hmem : ∀ p ∈ paired ++ [(⟨internal, external, finding⟩ : LeftoverPair)],
          p.internal ∈ internals := by
        intro p hp
        rcases List.mem_append.mp hp with hp | hp
        · exact hin p hp
        · exact (List.mem_singleton.mp hp) ▸ hinternal
      obtain ⟨hnodup', hin', new, hnew, hsub⟩ := pairTurns_spec hrest hstep hmem
      refine ⟨hnodup', hin', ⟨internal, external, finding⟩ :: new, ?_, hsub.cons_cons external⟩
      rw [hnew, List.append_assoc]
      rfl

/-! ## What a candidate is about -/

/-- The transactions that a record names as its own: the sides of a pair, a single, or a copy. The
original of a duplicate is not among them. -/
def AffectedRecords.subjects (r : AffectedRecords) : List Id :=
  r.normalisedTransactionIds ++ r.internalTransactionId.toList ++ r.externalTransactionId.toList

def Candidate.names (c : Candidate) : List Id := c.affectedRecords.subjects

/-- The transactions that a key is about. -/
def DedupeKey.subjects : DedupeKey → List Id
  | .txn _ id => [id]
  | .pair _ internal external => [internal, external]
  | _ => []

/-- The candidate names what its key is about, which is something. -/
def Candidate.OfLeftover (c : Candidate) : Prop :=
  c.names = c.dedupeKey.subjects ∧ c.names ≠ []

/-- The candidate of a pair is about a leftover, and names both sides. -/
theorem pairCandidate_ok {svc : ExceptionClassifier} {d : Db} {bankCode : String}
    {pair : LeftoverPair} {key : DedupeKey} {matchResultId : Option Id} {alreadyMatched : Bool}
    {c : Candidate}
    (h : svc.pairCandidate d bankCode pair key matchResultId alreadyMatched = .ok c) :
    c.dedupeKey = key ∧ c.names = [pair.internal.id, pair.external.id] := by
  obtain ⟨inr, -, h⟩ := except_bind_ok h
  cases h
  exact ⟨rfl, rfl⟩

theorem openPairCandidate_ok {svc : ExceptionClassifier} {d : Db} {bankCode : String}
    {pair : LeftoverPair} {matchResultId : Option Id} {c : Candidate}
    (h : svc.openPairCandidate d bankCode pair matchResultId = .ok c) :
    c.OfLeftover ∧ c.names = [pair.internal.id, pair.external.id] := by
  obtain ⟨hkey, hnames⟩ := pairCandidate_ok h
  refine ⟨⟨?_, ?_⟩, hnames⟩
  · rw [hkey, hnames]
    rfl
  · rw [hnames]
    exact List.cons_ne_nil _ _

/-- The candidate of a single names it. -/
theorem singleCandidate_ok {svc : ExceptionClassifier} {d : Db} {base : ExceptionCategory}
    {ctx : PairContext} {asOfDate : Option Date} {staleAfterDays : Option Int}
    {t : NormalisedTransaction} {c : Candidate}
    (h : svc.singleCandidate d base ctx asOfDate staleAfterDays t = .ok c) :
    c.OfLeftover ∧ c.names = [t.id] := by
  obtain ⟨inr, -, h⟩ := except_bind_ok h
  cases h
  exact ⟨⟨rfl, List.cons_ne_nil _ _⟩, rfl⟩

/-- The candidate of a copy names the copy, not its original. -/
theorem duplicateCandidate_ok {svc : ExceptionClassifier} {d : Db} {bankCode : String}
    {pair : NormalisedTransaction × NormalisedTransaction} {c : Candidate}
    (h : svc.duplicateCandidate d bankCode pair = .ok c) :
    c.OfLeftover ∧ c.names = [pair.2.id] := by
  obtain ⟨inr, -, h⟩ := except_bind_ok h
  cases h
  exact ⟨⟨rfl, List.cons_ne_nil _ _⟩, rfl⟩

/-- Candidates that name different transactions have different keys. -/
theorem keys_nodup {cs : List Candidate} (h : ∀ c ∈ cs, c.OfLeftover)
    (hnodup : (cs.flatMap Candidate.names).Nodup) : (cs.map (·.dedupeKey)).Nodup := by
  obtain ⟨-, hdisjoint⟩ := List.nodup_flatMap.mp hnodup
  rw [List.Nodup, List.pairwise_map]
  refine hdisjoint.imp_of_mem fun {c c'} hc hc' hne heq => ?_
  obtain ⟨hnames, hsome⟩ := h c hc
  obtain ⟨id, hid⟩ := List.exists_mem_of_ne_nil _ hsome
  refine hne hid ?_
  rw [(h c' hc').1, ← heq, ← hnames]
  exact hid

/-! ## The partition -/

section

variable {svc : ExceptionClassifier} {d : Db} {bankCode : String} {asOfDate : Option Date}
  {staleAfterDays : Option Int} {range : DateRange}

/-- Some elements of a list of distinct ones, and the others. -/
theorem perm_taken_rest {ts taken : List NormalisedTransaction} (hids : (ids ts).Nodup)
    (htaken : (ids taken).Nodup) (hin : ∀ t ∈ taken, t ∈ ts) :
    (ids taken ++ ids (ts.filter fun t => t.id ∉ ids taken)).Perm (ids ts) := by
  refine (List.perm_ext_iff_of_nodup ?_ hids).mpr fun id => ?_
  · refine List.nodup_append.mpr ⟨htaken, hids.sublist (List.filter_sublist.map _), ?_⟩
    intro a ha b hb heq
    obtain ⟨t, ht, rfl⟩ := List.mem_map.mp hb
    exact of_decide_eq_true (List.mem_filter.mp ht).2 (heq ▸ ha)
  · rw [List.mem_append]
    constructor
    · intro h
      rcases h with h | h
      · obtain ⟨t, ht, rfl⟩ := List.mem_map.mp h
        exact List.mem_map_of_mem (hin t ht)
      · obtain ⟨t, ht, rfl⟩ := List.mem_map.mp h
        exact List.mem_map_of_mem (List.mem_filter.mp ht).1
    · intro h
      by_cases hid : id ∈ ids taken
      · exact .inl hid
      · obtain ⟨t, ht, rfl⟩ := List.mem_map.mp h
        exact .inr (List.mem_map_of_mem (List.mem_filter.mpr ⟨ht, decide_eq_true hid⟩))

theorem flatMap_ids (ts : List NormalisedTransaction) : (ts.flatMap fun t => [t.id]) = ids ts :=
  List.map_eq_flatMap.symm

/-- Both sides of the pairs, taken apart. -/
theorem perm_pair_sides (paired : List LeftoverPair) :
    (paired.flatMap fun p => [p.internal.id, p.external.id]).Perm
      (paired.map (·.internal.id) ++ paired.map (·.external.id)) := by
  induction paired with
  | nil => exact List.Perm.refl _
  | cons p paired ih =>
    refine List.Perm.cons p.internal.id ?_
    exact (ih.cons p.external.id).trans List.perm_middle.symm

/-- The candidates of two pools name the transactions of the pools, each once. -/
theorem unmatchedCandidates_names {internals externals : List NormalisedTransaction}
    {cs : List Candidate} (hi : (ids internals).Nodup) (he : (ids externals).Nodup)
    (h : svc.unmatchedCandidates d bankCode internals externals asOfDate staleAfterDays = .ok cs) :
    (∀ c ∈ cs, c.OfLeftover) ∧
      (cs.flatMap Candidate.names).Perm (ids externals ++ ids internals) := by
  obtain ⟨paired, hpaired, h⟩ := except_bind_ok h
  obtain ⟨pairs, hpairs, h⟩ := except_bind_ok h
  obtain ⟨missingInternal, hmissingInternal, h⟩ := except_bind_ok h
  obtain ⟨missingExternal, hmissingExternal, h⟩ := except_bind_ok h
  cases h
  obtain ⟨hnodup, hin, new, hnew, hsub⟩ :=
    pairTurns_spec hpaired List.nodup_nil fun _ hp => absurd hp List.not_mem_nil
  rw [List.nil_append] at hnew
  subst hnew
  have hexternals : (ids (paired.map (·.external))).Nodup := he.sublist (hsub.map _)
  have hinternals : (ids (paired.map (·.internal))).Nodup := by
    unfold ids
    rw [List.map_map]
    exact hnodup
  have hinternal := perm_taken_rest hi hinternals (by
    intro t ht
    obtain ⟨p, hp, rfl⟩ := List.mem_map.mp ht
    exact hin p hp)
  have hexternal := perm_taken_rest he hexternals fun t ht => hsub.subset ht
  have hsides : ∀ f : LeftoverPair → NormalisedTransaction,
      ids (paired.map f) = paired.map fun p => (f p).id := fun f => List.map_map
  rw [hsides] at hinternal hexternal
  refine ⟨?_, ?_⟩
  · intro c hc
    rcases List.mem_append.mp hc with hc | hc
    · rcases List.mem_append.mp hc with hc | hc
      · exact forall_of_mapM hpairs (fun _ _ _ hok => (openPairCandidate_ok hok).1) c hc
      · exact forall_of_mapM hmissingInternal (fun _ _ _ hok => (singleCandidate_ok hok).1) c hc
    · exact forall_of_mapM hmissingExternal (fun _ _ _ hok => (singleCandidate_ok hok).1) c hc
  · rw [List.flatMap_append, List.flatMap_append,
      flatMap_of_mapM hpairs fun _ _ _ hok => (openPairCandidate_ok hok).2,
      flatMap_of_mapM hmissingInternal fun _ _ _ hok => (singleCandidate_ok hok).2,
      flatMap_of_mapM hmissingExternal fun _ _ _ hok => (singleCandidate_ok hok).2,
      flatMap_ids, flatMap_ids]
    refine List.perm_iff_count.mpr fun id => ?_
    have hs := (perm_pair_sides paired).count_eq id
    have hx := hexternal.count_eq id
    have hn := hinternal.count_eq id
    simp only [List.count_append] at hs hx hn ⊢
    omega

/-- A member of a set has one of the keys it was looked up under. -/
theorem mem_duplicateMembers {keys : List DuplicateKey} {t : NormalisedTransaction}
    (h : t ∈ d.duplicateMembers bankCode keys) :
    t ∈ d.transactions ∧ ∃ key ∈ keys, duplicateKey t = some key := by
  obtain ⟨ht, -, hkey, -⟩ := duplicateMembers_iff.mp h
  cases hsome : duplicateKey t with
  | none => simp [hsome] at hkey
  | some key => exact ⟨ht, key, by simpa [hsome] using hkey, rfl⟩

/-- The copies of the groups of some keys, without their originals. -/
theorem copies_sublist (groups : List (Option DuplicateKey × List NormalisedTransaction)) :
    ((groups.flatMap fun group => match group.2 with
      | [] => []
      | original :: copies => copies.map (original, ·)).map (·.2)).Sublist
        (groups.flatMap (·.2)) := by
  rw [List.map_flatMap]
  refine flatMap_sublist (fun group => ?_) groups
  cases group.2 with
  | nil => exact List.Sublist.refl _
  | cons original copies =>
    show ((copies.map (original, ·)).map (·.2)).Sublist (original :: copies)
    rw [List.map_map]
    exact (List.map_id copies).symm ▸ List.sublist_cons_self original copies

theorem duplicateCopies_nodup (hids : (ids d.transactions).Nodup) :
    ((d.duplicateCopies bankCode range).map (·.2.id)).Nodup := by
  have hkeys : (chunksOf Db.dupKeyChunk (d.duplicateKeys bankCode range)).flatten.Nodup := by
    rw [flatten_chunksOf (by decide)]
    exact (List.nodup_dedup _).filter _
  obtain ⟨-, hchunks⟩ := List.nodup_flatten.mp hkeys
  have hsub := fun keys => copies_sublist (groupsOn duplicateKey (d.duplicateMembers bankCode keys))
  have hperm := fun keys => flatMap_groupsOn duplicateKey (d.duplicateMembers bankCode keys)
  unfold Db.duplicateCopies
  rw [List.map_flatMap]
  refine List.nodup_flatMap.mpr ⟨fun keys _ => ?_, ?_⟩
  · have hmembers : (ids (d.duplicateMembers bankCode keys)).Nodup :=
      ((List.perm_insertionSort _ _).map _).nodup_iff.mpr
        (hids.sublist (List.filter_sublist.map _))
    have hgroups := ((hperm keys).map NormalisedTransaction.id).nodup_iff.mpr hmembers
    have hcopies := hgroups.sublist ((hsub keys).map NormalisedTransaction.id)
    rw [List.map_map] at hcopies
    exact hcopies
  · refine hchunks.imp fun {keys keys'} hdisjoint id hid hid' => ?_
    have hmem : ∀ keys, id ∈ ((groupsOn duplicateKey (d.duplicateMembers bankCode keys)).flatMap
        fun group => match group.2 with
          | [] => []
          | original :: copies => copies.map (original, ·)).map (·.2.id) →
        ∃ t ∈ d.transactions, t.id = id ∧ ∃ key ∈ keys, duplicateKey t = some key := by
      intro keys h
      obtain ⟨pair, hpair, rfl⟩ := List.mem_map.mp h
      have hin := (hperm keys).mem_iff.mp ((hsub keys).subset (List.mem_map_of_mem hpair))
      obtain ⟨ht, hkey⟩ := mem_duplicateMembers hin
      exact ⟨pair.2, ht, rfl, hkey⟩
    obtain ⟨t, ht, rfl, key, hkey, hsome⟩ := hmem keys hid
    obtain ⟨t', ht', hid', key', hkey', hsome'⟩ := hmem keys' hid'
    obtain rfl : t' = t := Store.eq_of_key_eq hids ht' ht hid'
    obtain rfl : key = key' := Option.some.inj (hsome.symm.trans hsome')
    exact hdisjoint hkey hkey'

/-- The candidates of the copies name them, each once. -/
theorem duplicateCandidates_names {cs : List Candidate} {copies : List Id}
    (h : svc.duplicateCandidates d bankCode range = .ok (cs, copies)) :
    copies = (d.duplicateCopies bankCode range).map (·.2.id) ∧ (∀ c ∈ cs, c.OfLeftover) ∧
      cs.flatMap Candidate.names = copies := by
  obtain ⟨candidates, hcandidates, h⟩ := except_bind_ok h
  cases h
  refine ⟨rfl, forall_of_mapM hcandidates fun _ _ _ hok => (duplicateCandidate_ok hok).1, ?_⟩
  rw [flatMap_of_mapM hcandidates fun _ _ _ hok => (duplicateCandidate_ok hok).2]
  exact List.map_eq_flatMap.symm

/-! ## The leftovers -/

/-- UNMATCHED and unclaimed, of the bank and in the range. -/
def Db.IsLeftover (d : Db) (bankCode : String) (range : DateRange) (t : NormalisedTransaction) :
    Prop :=
  t ∈ d.transactions ∧ t.bankCode = bankCode ∧ t.matchStatus = .unmatched ∧
    d.isClaimed t.id = false ∧ range.contains t.txnDate = true

/-- A leftover is in the pool of its side. -/
theorem Db.IsLeftover.mem_findUnmatched {t : NormalisedTransaction}
    (h : d.IsLeftover bankCode range t) : t ∈ d.findUnmatched bankCode t.source range :=
  Db.mem_findUnmatched.mpr ⟨h.1, Db.available_iff.mpr ⟨h.2.1, rfl, h.2.2⟩⟩

/-- The candidates name each of their transactions once, every leftover among them, and no two share
a key. -/
theorem leftoverCandidates_names {cs : List Candidate} (hids : (ids d.transactions).Nodup)
    (h : svc.leftoverCandidates d bankCode asOfDate staleAfterDays range = .ok cs) :
    (∀ c ∈ cs, c.OfLeftover) ∧ (cs.flatMap Candidate.names).Nodup ∧
      ∀ t, d.IsLeftover bankCode range t → t.id ∈ cs.flatMap Candidate.names := by
  obtain ⟨⟨duplicates, copies⟩, hduplicates, h⟩ := except_bind_ok h
  obtain ⟨unmatched, hunmatched, h⟩ := except_bind_ok h
  cases h
  obtain ⟨hcopies, hduplicate, hnames⟩ := duplicateCandidates_names hduplicates
  have hpool := fun source => (findUnmatched_nodup bankCode range hids
    source).sublist ((List.filter_sublist (p := fun t => decide (t.id ∉ copies))).map _)
  obtain ⟨hleftover, hperm⟩ := unmatchedCandidates_names (hpool .internal) (hpool .external)
    hunmatched
  have hrest : ∀ source id, id ∈ ids ((d.findUnmatched bankCode source range).filter
      (·.id ∉ copies)) → id ∉ copies ∧ ∃ t ∈ d.transactions, t.id = id ∧ t.source = source := by
    intro source id hid
    obtain ⟨t, ht, rfl⟩ := List.mem_map.mp hid
    obtain ⟨hmem, hnot⟩ := List.mem_filter.mp ht
    obtain ⟨hin, havailable⟩ := Db.mem_findUnmatched.mp hmem
    exact ⟨of_decide_eq_true hnot, t, hin, rfl, (Db.available_iff.mp havailable).2.1⟩
  refine ⟨?_, ?_, ?_⟩
  · intro c hc
    rcases List.mem_append.mp hc with hc | hc
    · exact hduplicate c hc
    · exact hleftover c hc
  · rw [List.flatMap_append, hnames, (hperm.append_left copies).nodup_iff, List.nodup_append]
    refine ⟨hcopies ▸ duplicateCopies_nodup hids, ?_, ?_⟩
    · refine List.nodup_append.mpr ⟨hpool .external, hpool .internal, ?_⟩
      intro a ha b hb heq
      obtain ⟨-, t, ht, hid, hsource⟩ := hrest .external a ha
      obtain ⟨-, t', ht', hid', hsource'⟩ := hrest .internal b hb
      obtain rfl : t = t' := Store.eq_of_key_eq hids ht ht' (by rw [hid, hid', heq])
      rw [hsource] at hsource'
      cases hsource'
    · intro a ha b hb heq
      rcases List.mem_append.mp hb with hb | hb
      · exact (hrest .external b hb).1 (heq ▸ ha)
      · exact (hrest .internal b hb).1 (heq ▸ ha)
  · intro t ht
    rw [List.flatMap_append, hnames, List.mem_append, hperm.mem_iff, List.mem_append]
    by_cases hcopy : t.id ∈ copies
    · exact .inl hcopy
    · have hin : t.id ∈ ids ((d.findUnmatched bankCode t.source range).filter (·.id ∉ copies)) :=
        List.mem_map_of_mem (List.mem_filter.mpr ⟨ht.mem_findUnmatched, decide_eq_true hcopy⟩)
      cases hsource : t.source with
      | internal => exact .inr (.inr (hsource ▸ hin))
      | external => exact .inr (.inl (hsource ▸ hin))

/-! ## Candidates can be built -/

/-- Every transaction is in a currency whose minor unit is known; normalisation takes no other. -/
def Db.CurrenciesKnown (d : Db) : Prop :=
  ∀ t ∈ d.transactions, (currencyExponent t.currency).isSome = true

variable (svc d) in
/-- An amount in a known currency can be converted. -/
theorem inrMinor_total {t : NormalisedTransaction}
    (h : (currencyExponent t.currency).isSome = true) : ∃ inr, svc.inrMinor d t = .ok inr := by
  unfold ExceptionClassifier.inrMinor
  split
  · exact ⟨_, rfl⟩
  · split
    · exact ⟨_, rfl⟩
    · split
      · exact ⟨_, rfl⟩
      · rename_i q _
        obtain ⟨inr, hinr⟩ := toInrMinor_ok t.amountMinor q.rateInr h
        exact ⟨some inr, by rw [hinr]; rfl⟩

/-- Pairing up fails for no leftovers in known currencies. -/
theorem pairTurns_total (ctx : PairContext) {internals : List NormalisedTransaction}
    (hi : ∀ t ∈ internals, (currencyExponent t.currency).isSome = true) :
    ∀ {externals : List NormalisedTransaction} (paired : List LeftoverPair),
      (∀ t ∈ externals, (currencyExponent t.currency).isSome = true) →
      ∃ paired', externals.foldlM (pairTurn ctx internals) paired = .ok paired'
  | [], paired, _ => ⟨paired, rfl⟩
  | external :: externals, paired, he => by
    have hturn : ∃ next, pairTurn ctx internals paired external = .ok next := by
      unfold pairTurn
      split
      · rename_i internal hpeers
        have hin : internal ∈ internals :=
          (List.mem_filter.mp (hpeers ▸ List.mem_singleton_self internal)).1
        obtain ⟨findings, hfindings⟩ := analysePair_ok ctx false none (hi internal hin)
          (he external List.mem_cons_self)
        split
        · exact ⟨_, rfl⟩
        · rw [hfindings]
          cases findings <;> exact ⟨_, rfl⟩
      · exact ⟨_, rfl⟩
    obtain ⟨next, hnext⟩ := hturn
    obtain ⟨paired', hrest⟩ := pairTurns_total ctx hi next
      fun t ht => he t (List.mem_cons_of_mem external ht)
    exact ⟨paired', by rw [List.foldlM_cons, hnext]; exact hrest⟩

theorem singleCandidate_total {base : ExceptionCategory} {ctx : PairContext}
    {t : NormalisedTransaction} (h : (currencyExponent t.currency).isSome = true) :
    ∃ c, svc.singleCandidate d base ctx asOfDate staleAfterDays t = .ok c := by
  obtain ⟨inr, hinr⟩ := inrMinor_total svc d h
  unfold ExceptionClassifier.singleCandidate
  rw [hinr]
  exact ⟨_, rfl⟩

variable (svc d bankCode asOfDate staleAfterDays) in
theorem unmatchedCandidates_total {internals externals : List NormalisedTransaction}
    (hi : ∀ t ∈ internals, (currencyExponent t.currency).isSome = true)
    (he : ∀ t ∈ externals, (currencyExponent t.currency).isSome = true) :
    ∃ cs, svc.unmatchedCandidates d bankCode internals externals asOfDate staleAfterDays =
      .ok cs := by
  obtain ⟨paired, hpaired⟩ := pairTurns_total (svc.pairContext d bankCode) hi [] he
  obtain ⟨-, -, new, rfl, hsub⟩ :=
    pairTurns_spec hpaired List.nodup_nil fun _ hp => absurd hp List.not_mem_nil
  obtain ⟨pairs, hpairs⟩ := exists_mapM_ok
    (f := fun pair => svc.openPairCandidate d bankCode pair) fun pair (hpair : pair ∈ paired) => by
      obtain ⟨inr, hinr⟩ := inrMinor_total svc d
        (he _ (hsub.subset (List.mem_map_of_mem hpair)))
      unfold ExceptionClassifier.openPairCandidate ExceptionClassifier.pairCandidate
      rw [hinr]
      exact ⟨_, rfl⟩
  have hrest := fun base (ts : List NormalisedTransaction)
      (h : ∀ t ∈ ts, (currencyExponent t.currency).isSome = true) (p : NormalisedTransaction → Bool) =>
    exists_mapM_ok (f := svc.singleCandidate d base (svc.pairContext d bankCode) asOfDate
      staleAfterDays) fun t (ht : t ∈ ts.filter p) => singleCandidate_total (h t (List.mem_filter.mp ht).1)
  obtain ⟨missingInternal, hmissingInternal⟩ := hrest .missingInternal externals he
    fun t => t.id ∉ paired.map (·.external.id)
  obtain ⟨missingExternal, hmissingExternal⟩ := hrest .missingExternal internals hi
    fun t => t.id ∉ paired.map (·.internal.id)
  refine ⟨pairs ++ missingInternal ++ missingExternal, ?_⟩
  unfold ExceptionClassifier.unmatchedCandidates
  simp only [hpaired, hpairs, hmissingInternal, hmissingExternal, bind, Except.bind, pure,
    Except.pure]

theorem leftoverCandidates_total (h : d.CurrenciesKnown) :
    ∃ cs, svc.leftoverCandidates d bankCode asOfDate staleAfterDays range = .ok cs := by
  have hpool : ∀ source (p : NormalisedTransaction → Bool),
      ∀ t ∈ (d.findUnmatched bankCode source range).filter p,
        (currencyExponent t.currency).isSome = true := by
    intro source p t ht
    exact h t (Db.mem_findUnmatched.mp (List.mem_filter.mp ht).1).1
  obtain ⟨duplicates, hduplicates⟩ := exists_mapM_ok (f := svc.duplicateCandidate d bankCode)
    fun pair (hpair : pair ∈ d.duplicateCopies bankCode range) => by
      obtain ⟨keys, -, hpair⟩ := List.mem_flatMap.mp hpair
      have hin := (copies_sublist _).subset (List.mem_map_of_mem hpair)
      have hmem := (mem_duplicateMembers ((flatMap_groupsOn duplicateKey _).mem_iff.mp hin)).1
      obtain ⟨inr, hinr⟩ := inrMinor_total svc d (h _ hmem)
      unfold ExceptionClassifier.duplicateCandidate
      rw [hinr]
      exact ⟨_, rfl⟩
  obtain ⟨unmatched, hunmatched⟩ := unmatchedCandidates_total svc d bankCode asOfDate staleAfterDays
    (hpool .internal fun t => t.id ∉ (d.duplicateCopies bankCode range).map (·.2.id))
    (hpool .external fun t => t.id ∉ (d.duplicateCopies bankCode range).map (·.2.id))
  refine ⟨duplicates ++ unmatched, ?_⟩
  unfold ExceptionClassifier.leftoverCandidates ExceptionClassifier.duplicateCandidates
  simp only [hduplicates, hunmatched, bind, Except.bind, pure, Except.pure]

/-! ## Coverage -/

/-- The transactions that `_COVERED_IDS_SQL` reads off a record. -/
def AffectedRecords.covered (r : AffectedRecords) : List Id :=
  r.subjects ++ r.singleTransactionId.toList ++ r.memberTransactionIds

/-- The transactions that the query counts: leftovers of the days that no exception covers. -/
def Db.uncovered (d : Db) (dateFrom dateTo : Date) : List NormalisedTransaction :=
  d.transactions.filter fun t => dateFrom ≤ t.txnDate ∧ t.txnDate ≤ dateTo ∧
    t.matchStatus = .unmatched ∧ d.isClaimed t.id = false ∧
      t.id ∉ d.exceptions.flatMap (·.affectedRecords.covered)

/-- Every exception names what its key is about. -/
def Db.Keyed (d : Db) : Prop :=
  ∀ e ∈ d.exceptions, ∀ id ∈ e.dedupeKey.subjects, id ∈ e.affectedRecords.covered

/-- The candidate names what its key is about. -/
def Candidate.Keyed (c : Candidate) : Prop :=
  ∀ id ∈ c.dedupeKey.subjects, id ∈ c.affectedRecords.covered

/-- The key of such a candidate names what it is about. -/
theorem Candidate.OfLeftover.keyed {c : Candidate} (h : c.OfLeftover) : c.Keyed := by
  intro id hid
  refine List.mem_append_left _ (List.mem_append_left _ ?_)
  have hnames : id ∈ c.names := h.1 ▸ hid
  exact hnames

/-- Of rows that were opened one by one, each has its candidate and each candidate its row. -/
theorem opened_rows {cs : List Candidate} {rows : List ReconException}
    {decision : Candidate → RoutingDecision} {runId : Option Id} {now : Instant}
    (h : List.Forall₂ (fun c row =>
      row = ExceptionService.openException c (decision c) runId now row.id) cs rows) :
    (∀ row ∈ rows, ∃ c ∈ cs, row.dedupeKey = c.dedupeKey ∧
      row.affectedRecords = c.affectedRecords) ∧
      ∀ c ∈ cs, ∃ row ∈ rows, row.affectedRecords = c.affectedRecords := by
  induction h with
  | nil => exact ⟨fun _ h => absurd h List.not_mem_nil, fun _ h => absurd h List.not_mem_nil⟩
  | @cons c row cs rows hrow _ ih =>
    obtain ⟨hrows, hcs⟩ := ih
    refine ⟨fun row' hrow' => ?_, fun c' hc' => ?_⟩
    · rcases List.mem_cons.mp hrow' with rfl | hrow'
      · exact ⟨c, List.mem_cons_self, by rw [hrow]; exact ⟨rfl, rfl⟩⟩
      · obtain ⟨c', hc', heq⟩ := hrows row' hrow'
        exact ⟨c', List.mem_cons_of_mem c hc', heq⟩
    · rcases List.mem_cons.mp hc' with rfl | hc'
      · exact ⟨row, List.mem_cons_self, by rw [hrow]; rfl⟩
      · obtain ⟨row', hrow', heq⟩ := hcs c' hc'
        exact ⟨row', List.mem_cons_of_mem row hrow', heq⟩

/-- After persisting, what the keys of the candidates are about is covered, by a new exception or by
the one that had the key already. -/
theorem persist_covers (svc : ExceptionService) {cs : List Candidate} (runId : Option Id)
    (now : Instant) (batchCount : Nat) {s : Session} (h : s.view.Keyed) (hcs : ∀ c ∈ cs, c.Keyed) :
    (svc.persist cs runId now batchCount).wp
      (fun _ s' => s'.view.Keyed ∧ ∀ c ∈ cs, ∀ id ∈ c.dedupeKey.subjects,
        id ∈ s'.view.exceptions.flatMap (·.affectedRecords.covered))
      (fun _ _ => True) s := by
  refine (persist_creates svc cs runId now batchCount s).mono ?_ fun _ _ _ => trivial
  rintro _ s' ⟨rows, _, _, _, hrows, he, _⟩
  obtain ⟨hback, hforth⟩ := opened_rows hrows
  rw [Db.Keyed, he]
  refine ⟨fun e hmem id hid => ?_, fun c hc id hid => ?_⟩
  · rcases List.mem_append.mp hmem with hold | hnew
    · exact h e hold id hid
    · obtain ⟨c, hc, hkey, hrecords⟩ := hback e hnew
      rw [hrecords]
      exact hcs c (List.mem_filter.mp hc).1 id (hkey ▸ hid)
  · rw [List.flatMap_append, List.mem_append]
    by_cases hexists : c.dedupeKey ∈ s.view.exceptions.map (·.dedupeKey)
    · obtain ⟨e, hold, hkey⟩ := List.mem_map.mp hexists
      exact .inl (List.mem_flatMap.mpr ⟨e, hold, h e hold id (hkey ▸ hid)⟩)
    · have hfresh : c ∈ s.view.freshCandidates cs := by
        refine List.mem_filter.mpr ⟨hc, ?_⟩
        rw [Bool.not_eq_true', List.contains_eq_mem, decide_eq_false_iff_not]
        exact fun hin => hexists (List.mem_filter.mp hin).1
      obtain ⟨row, hnew, hrecords⟩ := hforth c hfresh
      exact .inr (List.mem_flatMap.mpr ⟨row, hnew, hrecords ▸ hcs c hc id hid⟩)

/-! ## Keyed exceptions stay keyed -/

/-- The write inserts no exception. -/
def RowWrite.OpensNone : RowWrite → Prop
  | .insertException _ => False
  | _ => True

/-- Exceptions stay keyed while none is opened. -/
theorem keyed_apply {w : RowWrite} (hw : w.OpensNone) {d : Db} (h : d.Keyed) :
    (w.apply d).Keyed := by
  cases w with
  | insertException e => exact hw.elim
  | updateException id columns =>
    intro e he
    obtain ⟨old, hold, rfl⟩ := mem_updateIn.mp he
    split <;> exact h old hold
  | _ => exact h

/-- Work that inserts no exception keeps the exceptions keyed. -/
theorem keyed_of_work {α : Type} {p : Prog α} (hp : p.Work RowWrite.OpensNone) :
    p.Keeps fun _ (d : Db) => d.Keyed :=
  Keeps.of_writes (fun _ _ _ _ h => h) (fun _ _ _ hw h => keyed_apply hw h) hp

theorem pendingReviewCandidates_keyed {runId : Id} {cs : List Candidate}
    (h : svc.pendingReviewCandidates d bankCode runId = .ok cs) : ∀ c ∈ cs, c.Keyed := by
  obtain ⟨rows, hrows, h⟩ := except_bind_ok h
  cases h
  intro c hc
  obtain ⟨row, hrow, hc⟩ := List.mem_flatten.mp hc
  refine forall_of_mapM (p := fun row => ∀ c ∈ row, c.Keyed) hrows ?_ row hrow c hc
  intro (r, internal, external) _ row hok
  obtain ⟨findings, -, hok⟩ := except_bind_ok hok
  exact forall_of_mapM hok fun _ _ _ hpair => (openPairCandidate_ok hpair).1.keyed

/-- A key of no transactions says nothing. -/
theorem keyed_of_subjects {c : Candidate} (h : c.dedupeKey.subjects = []) : c.Keyed := by
  intro id hid
  rw [h] at hid
  exact absurd hid List.not_mem_nil

theorem matchedCandidates_keyed {runId : Id} {cs : List Candidate}
    (h : svc.matchedCandidates d bankCode runId = .ok cs) : ∀ c ∈ cs, c.Keyed := by
  obtain ⟨rows, hrows, h⟩ := except_bind_ok h
  cases h
  intro c hc
  obtain ⟨row, hrow, hc⟩ := List.mem_flatten.mp hc
  refine forall_of_mapM (p := fun row => ∀ c ∈ row, c.Keyed) hrows ?_ row hrow c hc
  intro (r, internal, external) _ row hok
  obtain ⟨findings, -, hok⟩ := except_bind_ok hok
  refine forall_of_mapM hok fun finding _ c hpair => keyed_of_subjects ?_
  rw [(pairCandidate_ok hpair).1]
  rfl

theorem groupCandidates_keyed {runId : Id} {cs : List Candidate}
    (h : svc.groupCandidates d bankCode runId = .ok cs) : ∀ c ∈ cs, c.Keyed := by
  obtain ⟨rows, hrows, h⟩ := except_bind_ok h
  cases h
  intro c hc
  obtain ⟨row, hrow, hc⟩ := List.mem_filterMap.mp hc
  refine forall_of_mapM (p := fun row => ∀ c, row = some c → c.Keyed) hrows ?_ row hrow c hc
  intro group _ row hok c hsome
  subst hsome
  unfold ExceptionClassifier.groupCandidate at hok
  split at hok
  · cases hok
  · split at hok
    · cases hok
    · split at hok
      · cases hok
      · obtain ⟨inr, -, hok⟩ := except_bind_ok hok
        cases hok
        exact keyed_of_subjects rfl

/-- A classification whose candidates are keyed keeps all exceptions so. -/
theorem classifyWith_keyed (svc : ExceptionClassifier)
    {candidates : Db → Except ReconError (List Candidate)} (runId : Id) (now : Instant)
    (hc : ∀ d cs, candidates d = .ok cs → ∀ c ∈ cs, c.Keyed) {s : Session} (h : s.view.Keyed) :
    (svc.classifyWith candidates runId now).wp (fun _ s' => s'.view.Keyed) (fun _ _ => True) s := by
  unfold ExceptionClassifier.classifyWith
  rw [bind_eq, wp_bind, wp_tables, bind_eq, wp_bind]
  refine wp_ofExcept ?_ fun _ _ => trivial
  intro cs hcs
  exact (persist_covers svc.toExceptionService (some runId) now _ h (hc s.view cs hcs)).mono
    (fun _ _ hs => hs.1) fun _ _ _ => trivial

/-- Classifying the leftovers covers every transaction that the candidates name. -/
theorem classifyUnmatched_covers (svc : ExceptionClassifier) (bankCode : String) (runId : Id)
    (now : Instant) (asOfDate : Option Date) (staleAfterDays : Option Int) (range : DateRange)
    {s : Session} (hids : (ids s.view.transactions).Nodup) (h : s.view.Keyed) :
    (svc.classifyUnmatched bankCode runId now asOfDate staleAfterDays range).wp
      (fun _ s' => s'.view.Keyed ∧ ∃ cs,
        svc.leftoverCandidates s.view bankCode asOfDate staleAfterDays range = .ok cs ∧
          ∀ id ∈ cs.flatMap Candidate.names,
            id ∈ s'.view.exceptions.flatMap (·.affectedRecords.covered))
      (fun _ _ => True) s := by
  unfold ExceptionClassifier.classifyUnmatched
  rw [bind_eq, wp_bind, wp_require]
  split
  · rw [bind_eq, wp_bind, wp_tables, bind_eq, wp_bind]
    refine wp_ofExcept ?_ fun _ _ => trivial
    intro (duplicates, copies) hduplicates
    dsimp only
    rw [bind_eq, wp_bind, wp_findUnmatched, bind_eq, wp_bind, wp_findUnmatched, bind_eq, wp_bind,
      wp_tables, bind_eq, wp_bind]
    refine wp_ofExcept ?_ fun _ _ => trivial
    intro unmatched hunmatched
    have hcandidates : svc.leftoverCandidates s.view bankCode asOfDate staleAfterDays range =
        .ok (duplicates ++ unmatched) := by
      unfold ExceptionClassifier.leftoverCandidates
      simp only [hduplicates, hunmatched, bind, Except.bind, pure, Except.pure]
    have hleftover := (leftoverCandidates_names hids hcandidates).1
    refine (persist_covers svc.toExceptionService (some runId) now _ h
      fun c hc => (hleftover c hc).keyed).mono ?_ fun _ _ _ => trivial
    rintro _ s' ⟨hkeyed, hcovered⟩
    refine ⟨hkeyed, _, hcandidates, fun id hid => ?_⟩
    obtain ⟨c, hc, hname⟩ := List.mem_flatMap.mp hid
    exact hcovered c hc id ((hleftover c hc).1 ▸ hname)
  · trivial

/-- Every classification of a run keeps the exceptions keyed. -/
theorem classifyRun_keyed (svc : ExceptionClassifier) (bankCode : String) (runId : Id)
    (now : Instant) (asOfDate : Option Date) (staleAfterDays : Option Int) (range : DateRange)
    {s : Session} (hids : (ids s.view.transactions).Nodup) (h : s.view.Keyed) :
    (svc.classifyRun bankCode runId now asOfDate staleAfterDays range).wp
      (fun _ s' => s'.view.Keyed) (fun _ _ => True) s := by
  unfold ExceptionClassifier.classifyRun
  rw [bind_eq, wp_bind]
  refine (classifyUnmatched_covers svc bankCode runId now asOfDate staleAfterDays range hids
    h).mono ?_ fun _ _ _ => trivial
  rintro _ s₁ ⟨h₁, _⟩
  rw [bind_eq, wp_bind]
  refine (classifyWith_keyed svc runId now (fun _ _ => pendingReviewCandidates_keyed)
    h₁).mono ?_ fun _ _ _ => trivial
  intro _ s₂ h₂
  rw [bind_eq, wp_bind]
  refine (classifyWith_keyed svc runId now (fun _ _ => matchedCandidates_keyed)
    h₂).mono ?_ fun _ _ _ => trivial
  intro _ s₃ h₃
  rw [bind_eq, wp_bind]
  exact classifyWith_keyed svc runId now (fun _ _ => groupCandidates_keyed) h₃

/-- So does the classification of a file. -/
theorem classifyIngestionFile_keyed (svc : ExceptionClassifier) (file : Id) (now : Instant)
    {s : Session} (h : s.view.Keyed) :
    (svc.classifyIngestionFile file now).wp (fun _ s' => s'.view.Keyed) (fun _ _ => True) s := by
  unfold ExceptionClassifier.classifyIngestionFile
  rw [bind_eq, wp_bind, wp_tables]
  split
  · trivial
  · refine (persist_covers svc.toExceptionService none now _ h fun c hc => ?_).mono
      (fun _ _ hs => hs.1) fun _ _ _ => trivial
    unfold ExceptionClassifier.formatErrorCandidates at hc
    split at hc
    · obtain rfl := List.mem_singleton.mp hc
      exact keyed_of_subjects rfl
    · obtain ⟨row, -, rfl⟩ := List.mem_map.mp hc
      exact keyed_of_subjects rfl

/-- **Every leftover is classified.** The candidates can be built when the currencies are known;
they name each of their transactions once, every leftover of the bank and range among them, under
distinct keys; and after persisting them the coverage query counts none of these leftovers, whatever
exceptions existed. -/
theorem leftovers_classified (svc : ExceptionClassifier) (bankCode : String) (runId : Id)
    (now : Instant) (asOfDate : Option Date) (staleAfterDays : Option Int) (range : DateRange)
    (s : Session) (hids : (ids s.view.transactions).Nodup) (hkeyed : s.view.Keyed) :
    (s.view.CurrenciesKnown →
      ∃ cs, svc.leftoverCandidates s.view bankCode asOfDate staleAfterDays range = .ok cs) ∧
    (∀ cs, svc.leftoverCandidates s.view bankCode asOfDate staleAfterDays range = .ok cs →
      (cs.flatMap Candidate.names).Nodup ∧ (cs.map (·.dedupeKey)).Nodup ∧
        ∀ t, s.view.IsLeftover bankCode range t → t.id ∈ cs.flatMap Candidate.names) ∧
    (svc.classifyUnmatched bankCode runId now asOfDate staleAfterDays range).wp
      (fun _ s' => s'.view.Keyed ∧ ∀ t, s.view.IsLeftover bankCode range t →
        ∀ dateFrom dateTo, t.id ∉ ids (s'.view.uncovered dateFrom dateTo))
      (fun _ _ => True) s := by
  refine ⟨leftoverCandidates_total, fun cs hcs => ?_, ?_⟩
  · obtain ⟨hleftover, hnodup, hnames⟩ := leftoverCandidates_names hids hcs
    exact ⟨hnodup, keys_nodup hleftover hnodup, hnames⟩
  refine (classifyUnmatched_covers svc bankCode runId now asOfDate staleAfterDays range hids
    hkeyed).mono ?_ fun _ _ _ => trivial
  rintro _ s' ⟨hkeyed', cs, hcs, hcovered⟩
  obtain ⟨-, -, hnames⟩ := leftoverCandidates_names hids hcs
  refine ⟨hkeyed', fun t ht dateFrom dateTo hin => ?_⟩
  obtain ⟨t', ht', hid⟩ := List.mem_map.mp hin
  obtain ⟨-, -, -, -, hnot⟩ := of_decide_eq_true (List.mem_filter.mp ht').2
  exact hnot (hid ▸ hcovered t.id (hnames t ht))

end

/-! ## A bank's day -/

/-- The shipped taxonomy, for banks without a configuration, and no exchange rates. -/
def plainClassifier : ExceptionClassifier where
  toExceptionService := shippedService
  banks _ := none
  calendars name := { name := name, holidays := [] }
  hasFx := false

def leftoverRow (id : Id) (source : Source) (amountMinor : Int) : NormalisedTransaction where
  id := id
  rawTransactionId := id
  ingestionFileId := 1
  source := source
  bankCode := "AXIS"
  sourceLineNo := some id
  txnDate := 739000
  settlementDate := none
  txnTimestampUtc := 0
  amountMinor := amountMinor
  currency := "INR"
  direction := .cr
  isReversal := false
  counterpartyNameNormalised := none
  narration := none
  narrationNormalised := none
  originalReferenceText := none
  normalisedReference := some "PAY42"
  matchStatus := .unmatched
  voidedOriginalId := none

/-- A ledger entry, the bank's entry for a smaller amount, and a copy of that one. -/
def leftoverDay : Session where
  committed :=
    { transactions := [leftoverRow 1 .internal 5000, leftoverRow 2 .external 4900,
        leftoverRow 3 .external 4900]
      files := [{ id := 1, bankCode := "AXIS", ingestedAt := 0 }] }
  supply := 4

theorem leftovers_classified_day :
    (leftoverDay.view.CurrenciesKnown →
      ∃ cs, plainClassifier.leftoverCandidates leftoverDay.view "AXIS" none none {} = .ok cs) ∧
    (∀ cs, plainClassifier.leftoverCandidates leftoverDay.view "AXIS" none none {} = .ok cs →
      (cs.flatMap Candidate.names).Nodup ∧ (cs.map (·.dedupeKey)).Nodup ∧
        ∀ t, leftoverDay.view.IsLeftover "AXIS" {} t → t.id ∈ cs.flatMap Candidate.names) ∧
    (plainClassifier.classifyUnmatched "AXIS" 0 0 none none {}).wp
      (fun _ s' => s'.view.Keyed ∧ ∀ t, leftoverDay.view.IsLeftover "AXIS" {} t →
        ∀ dateFrom dateTo, t.id ∉ ids (s'.view.uncovered dateFrom dateTo))
      (fun _ _ => True) leftoverDay :=
  leftovers_classified plainClassifier "AXIS" 0 0 none none {} leftoverDay (by decide +kernel)
    (fun _ h => absurd h List.not_mem_nil)

/-- The copy is reported as a duplicate, and the pair as one amount mismatch. -/
example : (plainClassifier.leftoverCandidates leftoverDay.view "AXIS" none none {}).map
    (·.map (·.dedupeKey)) = .ok [.txn .duplicateExternal 3, .pair .amountMismatch 1 2] := by
  decide +kernel

end Recon
