import ReconEngine.Exceptions.Findings

/-!
# What a key is about

An exception keeps its key for good, and while a key is taken no other exception is raised under it.
`Filed` says how the key fits the rest of the record: what it is about exists and is named, and is
what the auto-resolver settles when it acts on the exception. Every candidate is filed in the tables
it was built from, and stays so.

**What it does not establish.** That an exception is open, or that its key is the only one about its
transactions: a duplicate and a pair may name one row. `Histories.Shelving` and
`Histories.OpenLeftovers` put the first in; `Exceptions.Leftovers` says where keys are distinct.
-/

set_option autoImplicit false

namespace Recon

open Store.Prog hiding pure bind
open Traversal (forall_of_mapM)

/-! ## Rows that stay -/

/-- No transaction and no result goes, and a result keeps its sides. -/
structure Db.Carries (d d' : Db) : Prop where
  transactions : ∀ t ∈ d.transactions, ∃ t' ∈ d'.transactions, t'.id = t.id
  results : ∀ r ∈ d.results, ∃ r' ∈ d'.results, r'.id = r.id ∧
    r'.internalTransactionId = r.internalTransactionId ∧
      r'.externalTransactionId = r.externalTransactionId

theorem carries_of_same {d d' : Db} (ht : d'.transactions = d.transactions)
    (hr : d'.results = d.results) : d.Carries d' where
  transactions t hmem := ⟨t, ht ▸ hmem, rfl⟩
  results r hmem := ⟨r, hr ▸ hmem, rfl, rfl, rfl⟩

/-- Whatever is written, rows stay. -/
theorem carries_apply (w : RowWrite) (d : Db) : d.Carries (w.apply d) := by
  have hrows : ∀ (ids : List Id) (f : NormalisedTransaction → NormalisedTransaction),
      (∀ t, (f t).id = t.id) → d.Carries (d.updateTransaction ids f) := by
    intro ids f hf
    refine ⟨fun t ht => ⟨_, List.mem_map_of_mem ht, ?_⟩, fun r hr => ⟨r, hr, rfl, rfl, rfl⟩⟩
    split
    · exact hf t
    · rfl
  cases w with
  | insertTransaction t =>
    exact ⟨fun old hold => ⟨old, List.mem_append_left _ hold, rfl⟩,
      fun r hr => ⟨r, hr, rfl, rfl, rfl⟩⟩
  | transactionStatus id status => exact hrows _ _ fun _ => rfl
  | voidTransaction id original => exact hrows _ _ fun _ => rfl
  | insertResult r =>
    exact ⟨fun t ht => ⟨t, ht, rfl⟩,
      fun old hold => ⟨old, List.mem_append_left _ hold, rfl, rfl, rfl⟩⟩
  | resultStatus id status reviewedBy =>
    refine ⟨fun t ht => ⟨t, ht, rfl⟩, fun r hr => ⟨_, List.mem_map_of_mem hr, ?_⟩⟩
    split <;> exact ⟨rfl, rfl, rfl⟩
  | _ => exact carries_of_same rfl rfl

/-! ## Filed records -/

/-- How a key fits the category and the records beside it. -/
structure Filed (d : Db) (key : DedupeKey) (category : ExceptionCategory)
    (records : AffectedRecords) : Prop where
  known : ∀ id ∈ key.subjects, ∃ t ∈ d.transactions, t.id = id
  named : ∀ id ∈ key.subjects, id ∈ records.transactions
  duplicate : category = .duplicateInternal → key.subjects = records.normalisedTransactionIds
  group : category = .partialMatch ∨ category = .nettedSettlement → key.subjects = []
  pair : (ruleByCategory category).isSome = true → key.subjects ≠ [] →
    ∃ internal external, key.subjects = [internal, external] ∧
      records.internalTransactionId = some internal ∧
      records.externalTransactionId = some external ∧
      ∀ result, records.matchResultId = some result → ∃ r ∈ d.results, r.id = result ∧
        r.internalTransactionId = internal ∧ r.externalTransactionId = external

/-- A filed key stays filed while rows stay. -/
theorem Filed.carried {d d' : Db} {key : DedupeKey} {category : ExceptionCategory}
    {records : AffectedRecords} (h : Filed d key category records) (hcarries : d.Carries d') :
    Filed d' key category records where
  known := by
    intro id hid
    obtain ⟨t, ht, rfl⟩ := h.known id hid
    exact hcarries.transactions t ht
  named := h.named
  duplicate := h.duplicate
  group := h.group
  pair := by
    intro hrule hsome
    obtain ⟨internal, external, hkey, hi, hx, hresult⟩ := h.pair hrule hsome
    refine ⟨internal, external, hkey, hi, hx, fun result hid => ?_⟩
    obtain ⟨r, hr, rfl, hri, hrx⟩ := hresult result hid
    obtain ⟨r', hr', hid', hi', hx'⟩ := hcarries.results r hr
    exact ⟨r', hr', hid', hi'.trans hri, hx'.trans hrx⟩

/-- A key that is about no transaction fits everything. -/
theorem filed_of_none {d : Db} {key : DedupeKey} {category : ExceptionCategory}
    {records : AffectedRecords} (h : key.subjects = [])
    (hduplicate : category ≠ .duplicateInternal) :
    Filed d key category records := by
  have hnone : ∀ id, id ∉ key.subjects := fun id => h ▸ List.not_mem_nil
  exact ⟨fun id hid => absurd hid (hnone id), fun id hid => absurd hid (hnone id),
    fun hcategory => absurd hcategory hduplicate, fun _ => h, fun _ hsome => absurd h hsome⟩

/-! ## Candidates -/

/-- The candidate is filed in the tables. -/
def Candidate.FiledIn (d : Db) (c : Candidate) : Prop :=
  Filed d c.dedupeKey c.category c.affectedRecords

/-- The categories of split and netted groups. -/
def ExceptionCategory.IsGroup (category : ExceptionCategory) : Prop :=
  category = .partialMatch ∨ category = .nettedSettlement

section

variable {internal external : NormalisedTransaction} {ctx : PairContext} {finding : PairFinding}

/-- No finding about a pair is about a group. -/
theorem analysePair_pairwise {isMatched : Bool} {confidence : Option Rat}
    {findings : List PairFinding}
    (h : analysePair internal external ctx isMatched confidence = .ok findings)
    (hfinding : finding ∈ findings) : ¬ finding.category.IsGroup := by
  have hplain : ∀ category : ExceptionCategory, category ≠ .partialMatch →
      category ≠ .nettedSettlement → ¬ category.IsGroup := fun _ hp hn hgroup =>
    hgroup.elim hp hn
  rcases analysePair_cases h hfinding with hf | rfl | hf | hf | hf | hf | ⟨-, rfl⟩
  · rw [hf]
    exact hplain _ nofun nofun
  · exact hplain _ nofun nofun
  · unfold holdFinding at hf
    split at hf
    · cases hf
      exact hplain _ nofun nofun
    · cases hf
  · unfold dateFinding at hf
    split at hf
    · cases hf
    · split at hf <;> cases hf <;> exact hplain _ nofun nofun
  · unfold settlementDelay at hf
    dsimp only at hf
    split at hf
    · cases hf
    · cases hf
      exact hplain _ nofun nofun
  · unfold currencyFinding at hf
    split at hf
    · cases hf
      exact hplain _ nofun nofun
    · split at hf
      · obtain ⟨a, -, hf⟩ := except_bind_ok hf
        obtain ⟨b, -, hf⟩ := except_bind_ok hf
        dsimp only at hf
        split at hf <;> cases hf <;> exact hplain _ nofun nofun
      · cases hf
        exact hplain _ nofun nofun
  · unfold amountFinding
    split <;> exact hplain _ nofun nofun

end

section

variable {svc : ExceptionClassifier} {d : Db} {bankCode : String} {c : Candidate}

/-- The pair of a candidate: both sides are rows, and its finding is about a pair. -/
structure LeftoverPair.Filable (d : Db) (pair : LeftoverPair) : Prop where
  internal : pair.internal ∈ d.transactions
  external : pair.external ∈ d.transactions
  duplicate : pair.finding.category ≠ .duplicateInternal
  group : ¬ pair.finding.category.IsGroup

/-- A finding about two rows of the tables can be filed. -/
theorem filable_of_analysis {pair : LeftoverPair} {ctx : PairContext} {isMatched : Bool}
    {confidence : Option Rat} {findings : List PairFinding} (hi : pair.internal ∈ d.transactions)
    (hx : pair.external ∈ d.transactions)
    (h : analysePair pair.internal pair.external ctx isMatched confidence = .ok findings)
    (hfinding : pair.finding ∈ findings) : pair.Filable d :=
  ⟨hi, hx, (analysePair_fits h hfinding).duplicate, analysePair_pairwise h hfinding⟩

/-- The exception of a pair is filed under both sides. -/
theorem openPairCandidate_filed {pair : LeftoverPair} {matchResultId : Option Id}
    (hpair : pair.Filable d)
    (hresult : ∀ result, matchResultId = some result → ∃ r ∈ d.results, r.id = result ∧
      r.internalTransactionId = pair.internal.id ∧ r.externalTransactionId = pair.external.id)
    (h : svc.openPairCandidate d bankCode pair matchResultId = .ok c) : c.FiledIn d := by
  obtain ⟨inr, -, h⟩ := except_bind_ok h
  cases h
  constructor
  case known =>
    intro id hid
    rcases List.mem_cons.mp hid with rfl | hid
    · exact ⟨pair.internal, hpair.internal, rfl⟩
    · obtain rfl := List.mem_singleton.mp hid
      exact ⟨pair.external, hpair.external, rfl⟩
  case named =>
    intro id hid
    simpa [AffectedRecords.transactions, DedupeKey.subjects] using hid
  case duplicate => exact fun hcategory => absurd hcategory hpair.duplicate
  case group => exact fun hgroup => absurd hgroup hpair.group
  case pair => exact fun _ _ => ⟨pair.internal.id, pair.external.id, rfl, rfl, rfl, hresult⟩

theorem singleCandidate_filed {base : ExceptionCategory} {ctx : PairContext}
    {asOfDate : Option Date} {staleAfterDays : Option Int} {t : NormalisedTransaction}
    (hbase : base = .missingInternal ∨ base = .missingExternal) (ht : t ∈ d.transactions)
    (h : svc.singleCandidate d base ctx asOfDate staleAfterDays t = .ok c) : c.FiledIn d := by
  obtain ⟨inr, -, h⟩ := except_bind_ok h
  cases h
  obtain ⟨hduplicate, hrule⟩ := singleCategory_plain hbase t ctx asOfDate staleAfterDays
  constructor
  case known => exact fun id hid => ⟨t, ht, (List.mem_singleton.mp hid).symm⟩
  case named =>
    intro id hid
    simpa [AffectedRecords.transactions, DedupeKey.subjects] using hid
  case duplicate => exact fun hcategory => absurd hcategory hduplicate
  case group =>
    intro hgroup
    exfalso
    revert hgroup
    dsimp only
    unfold singleCategory
    rcases hbase with rfl | rfl <;> split_ifs <;> simp
  case pair =>
    intro hsome
    rw [hrule] at hsome
    cases hsome

theorem duplicateCandidate_filed {pair : NormalisedTransaction × NormalisedTransaction}
    (hcopy : pair.2 ∈ d.transactions) (h : svc.duplicateCandidate d bankCode pair = .ok c) :
    c.FiledIn d := by
  obtain ⟨inr, -, h⟩ := except_bind_ok h
  cases h
  constructor
  case known => exact fun id hid => ⟨pair.2, hcopy, (List.mem_singleton.mp hid).symm⟩
  case named =>
    intro id hid
    simp only [AffectedRecords.transactions, List.mem_append]
    exact .inl (.inl (.inl (.inl (.inl hid))))
  case duplicate => exact fun _ => rfl
  case group =>
    intro hgroup
    exfalso
    revert hgroup
    dsimp only
    split <;> simp
  case pair =>
    intro hrule
    dsimp only at hrule
    split at hrule <;> cases hrule

/-- Every candidate of the leftovers is filed. -/
theorem leftoverCandidates_filed {asOfDate : Option Date} {staleAfterDays : Option Int}
    {range : DateRange} {cs : List Candidate}
    (h : svc.leftoverCandidates d bankCode asOfDate staleAfterDays range = .ok cs) :
    ∀ c ∈ cs, c.FiledIn d := by
  obtain ⟨⟨duplicates, copies⟩, hduplicates, h⟩ := except_bind_ok h
  obtain ⟨unmatched, hunmatched, h⟩ := except_bind_ok h
  cases h
  obtain ⟨candidates, hcandidates, hduplicates⟩ := except_bind_ok hduplicates
  cases hduplicates
  obtain ⟨paired, hpaired, hunmatched⟩ := except_bind_ok hunmatched
  obtain ⟨pairs, hpairs, hunmatched⟩ := except_bind_ok hunmatched
  obtain ⟨missingInternal, hmissingInternal, hunmatched⟩ := except_bind_ok hunmatched
  obtain ⟨missingExternal, hmissingExternal, hunmatched⟩ := except_bind_ok hunmatched
  cases hunmatched
  have hpool : ∀ source (p : NormalisedTransaction → Bool),
      ∀ t ∈ (d.findUnmatched bankCode source range).filter p, t ∈ d.transactions :=
    fun source p t ht => (Db.mem_findUnmatched.mp (List.mem_filter.mp ht).1).1
  have hfound := pairTurns_found (P := LeftoverPair.Filable d) hpaired
    (fun external hexternal internal hinternal findings finding hfs hf =>
      show LeftoverPair.Filable d ⟨internal, external, finding⟩ from
        filable_of_analysis (hpool _ _ _ hinternal) (hpool _ _ _ hexternal) hfs hf)
    fun p hp => absurd hp List.not_mem_nil
  intro c hc
  rcases List.mem_append.mp hc with hc | hc
  · refine forall_of_mapM hcandidates (fun pair hpair c hok => ?_) c hc
    obtain ⟨keys, -, hpair⟩ := List.mem_flatMap.mp hpair
    have hin := (copies_sublist _).subset (List.mem_map_of_mem hpair)
    exact duplicateCandidate_filed
      (mem_duplicateMembers ((Store.flatMap_groupsOn duplicateKey _).mem_iff.mp hin)).1 hok
  rcases List.mem_append.mp hc with hc | hc
  · rcases List.mem_append.mp hc with hc | hc
    · refine forall_of_mapM hpairs (fun p hp c hok => ?_) c hc
      exact openPairCandidate_filed (hfound p hp) (fun _ hnone => by cases hnone) hok
    · exact forall_of_mapM hmissingInternal (fun t ht c hok =>
        singleCandidate_filed (.inl rfl) (hpool _ _ _ (List.mem_filter.mp ht).1) hok) c hc
  · exact forall_of_mapM hmissingExternal (fun t ht c hok =>
      singleCandidate_filed (.inr rfl) (hpool _ _ _ (List.mem_filter.mp ht).1) hok) c hc

/-- A result of a run with the rows of its sides. -/
theorem sides_of_runPairs {runId : Id} {statuses : List ResultStatus}
    {row : MatchResult × NormalisedTransaction × NormalisedTransaction}
    (h : row ∈ ExceptionClassifier.runPairs d bankCode runId statuses) :
    row.1 ∈ d.results ∧ row.1.internalTransactionId = row.2.1.id ∧
      row.1.externalTransactionId = row.2.2.id := by
  obtain ⟨r, hr, h⟩ := List.mem_filterMap.mp h
  obtain ⟨internal, hinternal, h⟩ := Option.bind_eq_some_iff.mp h
  obtain ⟨external, hexternal, h⟩ := Option.bind_eq_some_iff.mp h
  have hid : ∀ {id : Id} {t : NormalisedTransaction}, d.transaction? id = some t → id = t.id :=
    fun hsome => (by simpa using List.find?_some hsome : _ = _).symm
  split at h
  · cases h
    exact ⟨(List.mem_filter.mp hr).1, hid hinternal, hid hexternal⟩
  · cases h

theorem pendingReviewCandidates_filed {runId : Id} {cs : List Candidate}
    (h : svc.pendingReviewCandidates d bankCode runId = .ok cs) : ∀ c ∈ cs, c.FiledIn d := by
  obtain ⟨candidates, hcandidates, h⟩ := except_bind_ok h
  cases h
  intro c hc
  obtain ⟨found, hfound, hc⟩ := List.mem_flatten.mp hc
  refine forall_of_mapM (p := fun found => ∀ c ∈ found, c.FiledIn d) hcandidates
    (fun row hrow found hok => ?_) found hfound c hc
  obtain ⟨r, internal, external⟩ := row
  obtain ⟨findings, hfindings, hok⟩ := except_bind_ok hok
  obtain ⟨hi, hx⟩ := mem_runPairs hrow
  obtain ⟨hr, hri, hrx⟩ := sides_of_runPairs hrow
  refine forall_of_mapM hok fun finding hfinding c hok' => ?_
  have hpair : LeftoverPair.Filable d ⟨internal, external, finding⟩ :=
    filable_of_analysis hi hx hfindings (List.mem_of_mem_take hfinding)
  refine openPairCandidate_filed hpair (fun result hresult => ?_) hok'
  exact ⟨r, hr, Option.some.inj hresult, hri, hrx⟩

theorem matchedCandidates_filed {runId : Id} {cs : List Candidate}
    (h : svc.matchedCandidates d bankCode runId = .ok cs) : ∀ c ∈ cs, c.FiledIn d := by
  obtain ⟨candidates, hcandidates, h⟩ := except_bind_ok h
  cases h
  intro c hc
  obtain ⟨found, hfound, hc⟩ := List.mem_flatten.mp hc
  refine forall_of_mapM (p := fun found => ∀ c ∈ found, c.FiledIn d) hcandidates
    (fun row hrow found hok => ?_) found hfound c hc
  obtain ⟨r, internal, external⟩ := row
  obtain ⟨findings, hfindings, hok⟩ := except_bind_ok hok
  refine forall_of_mapM hok fun finding hfinding c hok' => ?_
  have hduplicate := (analysePair_fits hfindings hfinding).duplicate
  obtain ⟨inr, -, hok'⟩ := except_bind_ok hok'
  cases hok'
  exact filed_of_none rfl hduplicate

theorem groupCandidates_filed {runId : Id} {cs : List Candidate}
    (h : svc.groupCandidates d bankCode runId = .ok cs) : ∀ c ∈ cs, c.FiledIn d := by
  obtain ⟨candidates, hcandidates, h⟩ := except_bind_ok h
  cases h
  intro c hc
  obtain ⟨found, hfound, hc⟩ := List.mem_filterMap.mp hc
  obtain rfl : found = some c := hc
  refine forall_of_mapM (p := fun found => ∀ c, found = some c → c.FiledIn d) hcandidates
    (fun group _ found hok c hsome => ?_) (some c) hfound c rfl
  subst hsome
  unfold ExceptionClassifier.groupCandidate at hok
  split at hok
  · cases hok
  rename_i first _ _
  split at hok
  · cases hok
  split at hok
  · cases hok
  obtain ⟨inr, -, hok⟩ := except_bind_ok hok
  cases hok
  refine filed_of_none rfl ?_
  by_cases hsplit : first.matchType = .split <;> simp [hsplit]

/-- A quarantined row is about no transaction. -/
theorem formatErrorCandidates_filed {file : IngestionFile} {rows : List RawTransaction} :
    ∀ c ∈ svc.formatErrorCandidates file rows, c.FiledIn d := by
  intro c hc
  unfold ExceptionClassifier.formatErrorCandidates at hc
  split at hc
  · rw [List.mem_singleton.mp hc]
    exact filed_of_none rfl nofun
  · obtain ⟨row, -, rfl⟩ := List.mem_map.mp hc
    exact filed_of_none rfl nofun

end

end Recon
