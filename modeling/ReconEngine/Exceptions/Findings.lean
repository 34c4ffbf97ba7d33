import ReconEngine.Exceptions.Copies
import ReconEngine.Exceptions.Leftovers
import ReconEngine.Exceptions.Resolver

/-!
# What an exception records

The auto-resolver acts on what the classifier has written down. `Traceable` is what it may rely on:
a duplicate names one copy and its original, and an exception that settles a pair names both sides,
which differ in their amounts where a fee was deducted. Every candidate is traceable in the tables
it was built from, and stays so while rows keep what was ingested.

**What it does not establish.** That the finding is still true when the auto-resolver gets to it.
The action reads the rows again and fails where they no longer fit, and a failing action leaves the
exception to a person (`Histories.AutoResolution`).
-/

set_option autoImplicit false

namespace Recon

open Store.Prog hiding pure bind
open Traversal (forall_of_mapM)

/-! ## Rows as they were ingested -/

/-- The columns that no later write changes. -/
def NormalisedTransaction.asIngested (t : NormalisedTransaction) : NormalisedTransaction :=
  { t with matchStatus := .unmatched, voidedOriginalId := none }

/-- Rows stay as they were ingested, and files keep their ingestion times. -/
structure Db.Extends (d d' : Db) : Prop where
  rows : ∀ t ∈ d.transactions, ∃ t' ∈ d'.transactions, t'.asIngested = t.asIngested
  files : ∀ file at', d.ingestedAt? file = some at' → d'.ingestedAt? file = some at'

theorem asIngested_id {t t' : NormalisedTransaction} (h : t'.asIngested = t.asIngested) :
    t'.id = t.id := congrArg (·.id) h

theorem asIngested_alike {t t' : NormalisedTransaction} (h : t'.asIngested = t.asIngested) :
    t'.Alike t where
  source := congrArg (·.source) h
  bankCode := congrArg (·.bankCode) h
  reference := congrArg (·.normalisedReference) h
  amountMinor := congrArg (·.amountMinor) h
  currency := congrArg (·.currency) h
  direction := congrArg (·.direction) h
  txnDate := congrArg (·.txnDate) h

theorem NormalisedTransaction.Alike.symm {a b : NormalisedTransaction} (h : a.Alike b) :
    b.Alike a where
  source := h.source.symm
  bankCode := h.bankCode.symm
  reference := h.reference.symm
  amountMinor := h.amountMinor.symm
  currency := h.currency.symm
  direction := h.direction.symm
  txnDate := h.txnDate.symm

/-- The rank of a row of a known file depends on what was ingested only. -/
theorem Db.Extends.rank {d d' : Db} (h : d.Extends d') {t t' : NormalisedTransaction}
    (ht : t'.asIngested = t.asIngested) (hfile : (d.ingestedAt? t.ingestionFileId).isSome) :
    d'.duplicateRank t' = d.duplicateRank t ∧ (d'.ingestedAt? t'.ingestionFileId).isSome := by
  obtain ⟨at', hat⟩ := Option.isSome_iff_exists.mp hfile
  have hid : t'.id = t.id := asIngested_id ht
  have hfileId : t'.ingestionFileId = t.ingestionFileId := congrArg (·.ingestionFileId) ht
  have hline : t'.sourceLineNo = t.sourceLineNo := congrArg (·.sourceLineNo) ht
  have hat' : d'.ingestedAt? t'.ingestionFileId = some at' := hfileId ▸ h.files _ _ hat
  refine ⟨?_, hat' ▸ rfl⟩
  unfold Db.duplicateRank NormalisedTransaction.lineRank
  rw [hat', hat, hline, hid]

theorem Db.Extends.copyOf {d d' : Db} (h : d.Extends d')
    {copy copy' original original' : NormalisedTransaction}
    (hcopy : copy'.asIngested = copy.asIngested)
    (horiginal : original'.asIngested = original.asIngested) (hof : d.CopyOf copy original) :
    d'.CopyOf copy' original' := by
  obtain ⟨hrank, hfile⟩ := h.rank hcopy hof.copyFile
  obtain ⟨hrank', hfile'⟩ := h.rank horiginal hof.originalFile
  refine ⟨?_, hfile, hfile', ?_⟩
  · exact (asIngested_alike hcopy).trans (hof.alike.trans (asIngested_alike horiginal).symm)
  · rw [hrank, hrank']
    exact hof.later

/-! ## Traceable records -/

structure Traceable (d : Db) (category : ExceptionCategory) (records : AffectedRecords) : Prop where
  duplicate : category = .duplicateInternal → ∃ copy ∈ d.transactions,
    ∃ original ∈ d.transactions, records.normalisedTransactionIds = [copy.id] ∧
      records.originalTransactionId = some original.id ∧ d.CopyOf copy original
  pair : (ruleByCategory category).isSome = true → ∃ internal ∈ d.transactions,
    ∃ external ∈ d.transactions, records.internalTransactionId = some internal.id ∧
      records.externalTransactionId = some external.id ∧
        (category = .feeDeduction → internal.amountMinor ≠ external.amountMinor)

/-- What an exception records stays true while rows keep what was ingested. -/
theorem Traceable.extends {d d' : Db} {category : ExceptionCategory} {records : AffectedRecords}
    (h : Traceable d category records) (hext : d.Extends d') : Traceable d' category records where
  duplicate hcategory := by
    obtain ⟨copy, hcopy, original, horiginal, hids, hid, hof⟩ := h.duplicate hcategory
    obtain ⟨copy', hcopy', heq⟩ := hext.rows copy hcopy
    obtain ⟨original', horiginal', heq'⟩ := hext.rows original horiginal
    refine ⟨copy', hcopy', original', horiginal', ?_, ?_, hext.copyOf heq heq' hof⟩
    · rw [hids, asIngested_id heq]
    · rw [hid, asIngested_id heq']
  pair hrule := by
    obtain ⟨internal, hinternal, external, hexternal, hi, he, hfee⟩ := h.pair hrule
    obtain ⟨internal', hinternal', heq⟩ := hext.rows internal hinternal
    obtain ⟨external', hexternal', heq'⟩ := hext.rows external hexternal
    refine ⟨internal', hinternal', external', hexternal', ?_, ?_, fun hcategory => ?_⟩
    · rw [hi, asIngested_id heq]
    · rw [he, asIngested_id heq']
    · rw [(asIngested_alike heq).amountMinor, (asIngested_alike heq').amountMinor]
      exact hfee hcategory

/-- An exception on which the auto-resolver does nothing needs no records. -/
theorem traceable_of_none {d : Db} {category : ExceptionCategory} (records : AffectedRecords)
    (hduplicate : category ≠ .duplicateInternal) (hrule : ruleByCategory category = none) :
    Traceable d category records where
  duplicate h := absurd h hduplicate
  pair h := by rw [hrule] at h; cases h

/-! ## Findings -/

/-- A finding about a pair is not a duplicate, and a deducted fee is a difference. -/
structure PairFinding.Fits (internal external : NormalisedTransaction) (finding : PairFinding) :
    Prop where
  duplicate : finding.category ≠ .duplicateInternal
  fee : finding.category = .feeDeduction → internal.amountMinor ≠ external.amountMinor

/-- Most findings need nothing of their pair. -/
theorem PairFinding.fits_of {internal external : NormalisedTransaction} {finding : PairFinding}
    (h : finding.category ≠ .duplicateInternal ∧ finding.category ≠ .feeDeduction) :
    finding.Fits internal external := ⟨h.1, fun heq => absurd heq h.2⟩

section

variable {internal external : NormalisedTransaction} {ctx : PairContext} {finding : PairFinding}

theorem dateFinding_fits (h : dateFinding internal external ctx = some finding) :
    finding.Fits internal external := by
  unfold dateFinding at h
  split at h
  · cases h
  · split at h
    · cases h
      exact PairFinding.fits_of ⟨nofun, nofun⟩
    · cases h
      exact PairFinding.fits_of ⟨nofun, nofun⟩

theorem settlementDelay_fits (h : settlementDelay internal external ctx = some finding) :
    finding.Fits internal external := by
  unfold settlementDelay at h
  dsimp only at h
  split at h
  · cases h
  · cases h
    exact PairFinding.fits_of ⟨nofun, nofun⟩

theorem holdFinding_fits (h : holdFinding internal external ctx = some finding) :
    finding.Fits internal external := by
  unfold holdFinding at h
  split at h
  · cases h
    exact PairFinding.fits_of ⟨nofun, nofun⟩
  · cases h

theorem currencyFinding_fits (h : currencyFinding internal external ctx = .ok finding) :
    finding.Fits internal external := by
  unfold currencyFinding at h
  split at h
  · cases h
    exact PairFinding.fits_of ⟨nofun, nofun⟩
  · split at h
    · obtain ⟨a, -, h⟩ := except_bind_ok h
      obtain ⟨b, -, h⟩ := except_bind_ok h
      dsimp only at h
      split at h
      · cases h
        exact PairFinding.fits_of ⟨nofun, nofun⟩
      · cases h
        exact PairFinding.fits_of ⟨nofun, nofun⟩
    · cases h
      exact PairFinding.fits_of ⟨nofun, nofun⟩

/-- A fee is found only where the amounts differ. -/
theorem amountFinding_fits (h : internal.amountMinor ≠ external.amountMinor) :
    (amountFinding internal external ctx).Fits internal external := by
  unfold amountFinding
  split
  · exact ⟨nofun, fun _ => h⟩
  · exact PairFinding.fits_of ⟨nofun, nofun⟩

/-- Where a finding of an analysis comes from. -/
theorem analysePair_cases {isMatched : Bool} {confidence : Option Rat} {findings : List PairFinding}
    (h : analysePair internal external ctx isMatched confidence = .ok findings)
    (hfinding : finding ∈ findings) :
    finding.category = .directionReversal ∨ finding = truncationFinding confidence ∨
      holdFinding internal external ctx = some finding ∨
      dateFinding internal external ctx = some finding ∨
      settlementDelay internal external ctx = some finding ∨
      currencyFinding internal external ctx = .ok finding ∨
      internal.amountMinor ≠ external.amountMinor ∧ finding = amountFinding internal external ctx := by
  unfold analysePair at h
  split at h
  · cases h
    simp only [analyseMatched, List.mem_append, Option.mem_toList, or_assoc] at hfinding
    rcases hfinding with hf | hf | hf | hf
    · exact .inr (.inr (.inl hf))
    · split at hf
      · exact .inr (.inl (List.mem_singleton.mp hf))
      · exact absurd hf List.not_mem_nil
    · exact .inr (.inr (.inr (.inl hf)))
    · exact .inr (.inr (.inr (.inr (.inl hf))))
  · split at h
    · rename_i hold hhold
      cases h
      exact .inr (.inr (.inl (List.mem_singleton.mp hfinding ▸ hhold)))
    · unfold analyseUnmatched at h
      dsimp only at h
      split_ifs at h with hdirection hmoney hcurrency htruncated hamount
      · cases h
        exact .inl (List.mem_singleton.mp hfinding ▸ rfl)
      · cases h
        exact absurd hfinding List.not_mem_nil
      · cases hf : currencyFinding internal external ctx with
        | error e =>
          rw [hf] at h
          cases h
        | ok f =>
          rw [hf] at h
          cases h
          rw [List.mem_singleton.mp hfinding]
          exact .inr (.inr (.inr (.inr (.inr (.inl rfl)))))
      · cases h
        exact .inr (.inl (List.mem_singleton.mp hfinding))
      · cases h
        exact .inr (.inr (.inr (.inr (.inr (.inr ⟨hamount, List.mem_singleton.mp hfinding⟩)))))
      · cases h
        exact .inr (.inr (.inr (.inl (Option.mem_toList.mp hfinding))))

/-- Every finding of an analysis fits its pair. -/
theorem analysePair_fits {isMatched : Bool} {confidence : Option Rat} {findings : List PairFinding}
    (h : analysePair internal external ctx isMatched confidence = .ok findings)
    (hfinding : finding ∈ findings) : finding.Fits internal external := by
  rcases analysePair_cases h hfinding with hf | rfl | hf | hf | hf | hf | ⟨hamount, rfl⟩
  · exact PairFinding.fits_of (hf ▸ ⟨nofun, nofun⟩)
  · exact PairFinding.fits_of ⟨nofun, nofun⟩
  · exact holdFinding_fits hf
  · exact dateFinding_fits hf
  · exact settlementDelay_fits hf
  · exact currencyFinding_fits hf
  · exact amountFinding_fits hamount

end

/-! ## Candidates -/

/-- The candidate can be traced in the tables. -/
def Candidate.Traced (d : Db) (c : Candidate) : Prop := Traceable d c.category c.affectedRecords

section

variable {svc : ExceptionClassifier} {d : Db} {bankCode : String} {c : Candidate}

theorem pairCandidate_traced {pair : LeftoverPair} {key : DedupeKey} {matchResultId : Option Id}
    {alreadyMatched : Bool}
    (h : svc.pairCandidate d bankCode pair key matchResultId alreadyMatched = .ok c)
    (hi : pair.internal ∈ d.transactions) (he : pair.external ∈ d.transactions)
    (hfits : pair.finding.Fits pair.internal pair.external) : c.Traced d := by
  obtain ⟨inr, -, h⟩ := except_bind_ok h
  cases h
  exact ⟨fun hcategory => absurd hcategory hfits.duplicate,
    fun _ => ⟨pair.internal, hi, pair.external, he, rfl, rfl, hfits.fee⟩⟩

/-- A single is missing, in time or stale, and nothing else. -/
theorem singleCategory_plain {base : ExceptionCategory}
    (hbase : base = .missingInternal ∨ base = .missingExternal) (t : NormalisedTransaction)
    (ctx : PairContext) (asOfDate : Option Date) (staleAfterDays : Option Int) :
    singleCategory base t ctx asOfDate staleAfterDays ≠ .duplicateInternal ∧
      ruleByCategory (singleCategory base t ctx asOfDate staleAfterDays) = none := by
  unfold singleCategory
  rcases hbase with rfl | rfl <;> split_ifs <;> exact ⟨nofun, rfl⟩

theorem singleCandidate_traced {base : ExceptionCategory} {ctx : PairContext}
    {asOfDate : Option Date} {staleAfterDays : Option Int} {t : NormalisedTransaction}
    (hbase : base = .missingInternal ∨ base = .missingExternal)
    (h : svc.singleCandidate d base ctx asOfDate staleAfterDays t = .ok c) : c.Traced d := by
  obtain ⟨inr, -, h⟩ := except_bind_ok h
  cases h
  obtain ⟨hduplicate, hrule⟩ := singleCategory_plain hbase t ctx asOfDate staleAfterDays
  exact traceable_of_none _ hduplicate hrule

/-- The exception of a copy names the copy and its original. -/
theorem duplicateCandidate_traced {range : DateRange}
    (hids : (d.transactions.map (·.id)).Nodup)
    {pair : NormalisedTransaction × NormalisedTransaction}
    (hpair : pair ∈ d.duplicateCopies bankCode range)
    (h : svc.duplicateCandidate d bankCode pair = .ok c) : c.Traced d := by
  obtain ⟨horiginal, hcopy, hof⟩ := mem_duplicateCopies hids hpair
  obtain ⟨inr, -, h⟩ := except_bind_ok h
  cases h
  refine ⟨fun _ => ⟨pair.2, hcopy, pair.1, horiginal, rfl, rfl, hof⟩, fun hrule => ?_⟩
  dsimp only at hrule
  split at hrule <;> cases hrule

/-- The pairs of the loop come from the pools, and their findings from the analysis. -/
theorem pairTurns_found {ctx : PairContext} {internals : List NormalisedTransaction}
    {P : LeftoverPair → Prop} : ∀ {externals : List NormalisedTransaction}
      {paired paired' : List LeftoverPair},
      externals.foldlM (pairTurn ctx internals) paired = .ok paired' →
      (∀ external ∈ externals, ∀ internal ∈ internals, ∀ findings finding,
        analysePair internal external ctx false = .ok findings → finding ∈ findings →
          P ⟨internal, external, finding⟩) →
      (∀ p ∈ paired, P p) → ∀ p ∈ paired', P p
  | [], paired, paired', h, _, hold => by
    cases h
    exact hold
  | external :: externals, paired, paired', h, hnew, hold => by
    rw [List.foldlM_cons] at h
    obtain ⟨next, hnext, hrest⟩ := except_bind_ok h
    refine pairTurns_found hrest (fun e he => hnew e (List.mem_cons_of_mem external he)) ?_
    rcases pairTurn_cases hnext with rfl | ⟨internal, finding, rfl, hi, -, findings, hfs, hf⟩
    · exact hold
    · intro p hp
      rcases List.mem_append.mp hp with hp | hp
      · exact hold p hp
      · rw [List.mem_singleton.mp hp]
        exact hnew external List.mem_cons_self internal hi findings finding hfs hf

/-- What is raised about leftovers is traceable. -/
theorem unmatchedCandidates_traced {internals externals : List NormalisedTransaction}
    {asOfDate : Option Date} {staleAfterDays : Option Int} {cs : List Candidate}
    (hi : ∀ t ∈ internals, t ∈ d.transactions) (he : ∀ t ∈ externals, t ∈ d.transactions)
    (h : svc.unmatchedCandidates d bankCode internals externals asOfDate staleAfterDays = .ok cs) :
    ∀ c ∈ cs, c.Traced d := by
  obtain ⟨paired, hpaired, h⟩ := except_bind_ok h
  obtain ⟨pairs, hpairs, h⟩ := except_bind_ok h
  obtain ⟨missingInternal, hmissingInternal, h⟩ := except_bind_ok h
  obtain ⟨missingExternal, hmissingExternal, h⟩ := except_bind_ok h
  cases h
  have hfound := pairTurns_found (P := fun p => p.internal ∈ d.transactions ∧
      p.external ∈ d.transactions ∧ p.finding.Fits p.internal p.external) hpaired
    (fun external hexternal internal hinternal findings finding hfs hf =>
      ⟨hi internal hinternal, he external hexternal, analysePair_fits hfs hf⟩)
    fun p hp => absurd hp List.not_mem_nil
  intro c hc
  rcases List.mem_append.mp hc with hc | hc
  · rcases List.mem_append.mp hc with hc | hc
    · refine forall_of_mapM hpairs (fun p hp c hok => ?_) c hc
      obtain ⟨hinternal, hexternal, hfits⟩ := hfound p hp
      exact pairCandidate_traced hok hinternal hexternal hfits
    · exact forall_of_mapM hmissingInternal
        (fun t _ c hok => singleCandidate_traced (Or.inl rfl) hok) c hc
  · exact forall_of_mapM hmissingExternal
      (fun t _ c hok => singleCandidate_traced (Or.inr rfl) hok) c hc

theorem duplicateCandidates_traced {range : DateRange}
    (hids : (d.transactions.map (·.id)).Nodup) {cs : List Candidate} {copies : List Id}
    (h : svc.duplicateCandidates d bankCode range = .ok (cs, copies)) : ∀ c ∈ cs, c.Traced d := by
  obtain ⟨candidates, hcandidates, h⟩ := except_bind_ok h
  cases h
  exact forall_of_mapM hcandidates fun pair hpair c hok => duplicateCandidate_traced hids hpair hok

/-- The sides of the results of a run are rows of the table. -/
theorem mem_runPairs {runId : Id} {statuses : List ResultStatus}
    {row : MatchResult × NormalisedTransaction × NormalisedTransaction}
    (h : row ∈ ExceptionClassifier.runPairs d bankCode runId statuses) :
    row.2.1 ∈ d.transactions ∧ row.2.2 ∈ d.transactions := by
  obtain ⟨r, -, h⟩ := List.mem_filterMap.mp h
  obtain ⟨internal, hinternal, h⟩ := Option.bind_eq_some_iff.mp h
  obtain ⟨external, hexternal, h⟩ := Option.bind_eq_some_iff.mp h
  split at h
  · cases h
    exact ⟨List.mem_of_find?_eq_some hinternal, List.mem_of_find?_eq_some hexternal⟩
  · cases h

theorem pendingReviewCandidates_traced {runId : Id} {cs : List Candidate}
    (h : svc.pendingReviewCandidates d bankCode runId = .ok cs) : ∀ c ∈ cs, c.Traced d := by
  obtain ⟨candidates, hcandidates, h⟩ := except_bind_ok h
  cases h
  intro c hc
  obtain ⟨of, hof, hc⟩ := List.mem_flatten.mp hc
  refine forall_of_mapM (p := fun of => ∀ c ∈ of, c.Traced d) hcandidates
    (fun row hrow of hok => ?_) of hof c hc
  obtain ⟨r, internal, external⟩ := row
  obtain ⟨findings, hfindings, hok⟩ := except_bind_ok hok
  obtain ⟨hi, he⟩ := mem_runPairs hrow
  refine forall_of_mapM hok fun finding hfinding c hok' => ?_
  exact pairCandidate_traced hok' hi he (analysePair_fits hfindings (List.mem_of_mem_take hfinding))

theorem matchedCandidates_traced {runId : Id} {cs : List Candidate}
    (h : svc.matchedCandidates d bankCode runId = .ok cs) : ∀ c ∈ cs, c.Traced d := by
  obtain ⟨candidates, hcandidates, h⟩ := except_bind_ok h
  cases h
  intro c hc
  obtain ⟨of, hof, hc⟩ := List.mem_flatten.mp hc
  refine forall_of_mapM (p := fun of => ∀ c ∈ of, c.Traced d) hcandidates
    (fun row hrow of hok => ?_) of hof c hc
  obtain ⟨r, internal, external⟩ := row
  obtain ⟨findings, hfindings, hok⟩ := except_bind_ok hok
  obtain ⟨hi, he⟩ := mem_runPairs (List.mem_filter.mp hrow).1
  refine forall_of_mapM hok fun finding hfinding c hok' => ?_
  exact pairCandidate_traced hok' hi he (analysePair_fits hfindings hfinding)

theorem groupCandidate_traced {group : Id × List MatchResult} {c : Candidate}
    (h : svc.groupCandidate d bankCode group = .ok (some c)) : c.Traced d := by
  unfold ExceptionClassifier.groupCandidate at h
  split at h
  · cases h
  rename_i first _ _
  split at h
  · cases h
  split at h
  · cases h
  obtain ⟨inr, -, h⟩ := except_bind_ok h
  cases h
  by_cases hsplit : first.matchType = .split
  · exact traceable_of_none _ (by simp [hsplit]) (by simp [hsplit, ruleByCategory])
  · exact traceable_of_none _ (by simp [hsplit]) (by simp [hsplit, ruleByCategory])

theorem groupCandidates_traced {runId : Id} {cs : List Candidate}
    (h : svc.groupCandidates d bankCode runId = .ok cs) : ∀ c ∈ cs, c.Traced d := by
  obtain ⟨candidates, hcandidates, h⟩ := except_bind_ok h
  cases h
  intro c hc
  obtain ⟨found, hfound, hc⟩ := List.mem_filterMap.mp hc
  obtain rfl : found = some c := hc
  exact forall_of_mapM (p := fun found => ∀ c, found = some c → c.Traced d) hcandidates
    (fun group _ found hok c hsome => groupCandidate_traced (hsome ▸ hok)) (some c) hfound c rfl

theorem formatErrorCandidates_traced {file : IngestionFile} {rows : List RawTransaction} :
    ∀ c ∈ svc.formatErrorCandidates file rows, c.Traced d := by
  intro c hc
  unfold ExceptionClassifier.formatErrorCandidates at hc
  split at hc
  · rw [List.mem_singleton.mp hc]
    exact traceable_of_none _ nofun rfl
  · obtain ⟨row, -, rfl⟩ := List.mem_map.mp hc
    exact traceable_of_none _ nofun rfl

end

end Recon
