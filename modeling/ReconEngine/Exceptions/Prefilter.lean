import ReconEngine.Exceptions.Findings
import ReconEngine.Ingestion.Pipeline
import ReconEngine.Traversal.Except

/-!
# The prefilter of matched pairs

`classify_matched` loads only the pairs that could have a finding, by conditions in SQL. A pair that
it leaves out has none: on equal dates and references there is no late booking and nothing that was
cut, a settlement on the day of the transaction is no business day late, and a keyword is looked for
in the same text on both sides. The text is the same because the pipeline writes no normalised
narration: for an empty one, the analysis falls back to the narration and SQL does not.

**The law** (`matchedCandidates_eq_every`): the candidates of the pairs that the prefilter lets
through are the candidates of all matched pairs, in the same order.

**What it does not establish.** That the SQL conditions are the tightest: pairs without a finding
may pass them. The search for keywords in SQL and in the analysis is taken to agree, for a text of
the pipeline.
-/

set_option autoImplicit false

namespace Recon

/-! ## Pairs that are left out -/

/-- What the pipeline wrote of a canonical transaction; no later write changes it. -/
def NormalisedTransaction.WrittenByPipeline (t : NormalisedTransaction) : Prop :=
  ∃ file canonical raw id, t.asIngested = normalisedTransaction file canonical raw id

theorem narrationNormalised_of_written {t : NormalisedTransaction} (h : t.WrittenByPipeline) :
    t.narrationNormalised = none := by
  obtain ⟨file, canonical, raw, id, h⟩ := h
  exact congrArg (·.narrationNormalised) h

/-- The analysis and SQL look for keywords in one text of a row that the pipeline wrote. -/
theorem narrationOf_of_written {t : NormalisedTransaction} (h : t.WrittenByPipeline) :
    narrationOf t = (t.narrationNormalised <|> t.narration).getD "" := by
  simp [narrationOf, nonBlank, narrationNormalised_of_written h]

section

variable {internal external : NormalisedTransaction} (ctx : PairContext)

/-- Equal references are not truncated. -/
theorem isTruncatedPair_of_eq (detection : DetectionConfig)
    (h : internal.normalisedReference = external.normalisedReference) :
    isTruncatedPair internal external detection = false := by
  simp [isTruncatedPair, h]

/-- A settlement on the day of the transaction is not late. -/
theorem settlementDelay_of_eq
    (h : external.settlementDate.getD external.txnDate = internal.txnDate) :
    settlementDelay internal external ctx = none := by
  simp only [settlementDelay, h, BusinessCalendar.businessDaysBetween_self, Nat.zero_le, if_true]

/-- A pair that the prefilter leaves out has no finding. -/
theorem analyseMatched_of_not_mayHaveFinding (hinternal : internal.WrittenByPipeline)
    (hexternal : external.WrittenByPipeline) (confidence : Option Rat)
    (h : ExceptionClassifier.mayHaveFinding ctx.detection internal external = false) :
    analyseMatched internal external ctx confidence = [] := by
  simp only [ExceptionClassifier.mayHaveFinding, decide_eq_false_iff_not, not_or, not_not, Bool.not_eq_true] at h
  obtain ⟨hdate, hsettled, hreference, hheld, hheld'⟩ := h
  have hhold : holdFinding internal external ctx = none := by
    simp only [holdFinding, hasRegulatoryHold, narrationOf_of_written hinternal,
      narrationOf_of_written hexternal, hheld, hheld', Bool.or_self, Bool.false_eq_true, if_false]
  simp [analyseMatched, hhold, isTruncatedPair_of_eq ctx.detection hreference, dateFinding, hdate,
    settlementDelay_of_eq ctx hsettled]

end

/-! ## The candidates -/

namespace ExceptionClassifier

variable (svc : ExceptionClassifier)

/-- The candidates of one matched pair. -/
def matchedPairCandidates (d : Db) (bankCode : String)
    (row : MatchResult × NormalisedTransaction × NormalisedTransaction) :
    Except ReconError (List Candidate) := do
  let findings ← analysePair row.2.1 row.2.2 (svc.pairContext d bankCode) true
    (some (confidenceOf row.1))
  findings.mapM fun finding => svc.pairCandidate d bankCode ⟨row.2.1, row.2.2, finding⟩
    (.matched finding.category row.1.id) (some row.1.id) true

/-- The candidates of every matched pair of the run, with no prefilter. -/
def everyMatchedCandidates (d : Db) (bankCode : String) (runId : Id) :
    Except ReconError (List Candidate) := do
  let candidates ← (runPairs d bankCode runId [.autoMatched, .confirmed]).mapM
    (svc.matchedPairCandidates d bankCode)
  return candidates.flatten

/-- The sides of a run's pairs are rows of the table. -/
theorem mem_runPairs {d : Db} {bankCode : String} {runId : Id} {statuses : List ResultStatus}
    {row : MatchResult × NormalisedTransaction × NormalisedTransaction}
    (h : row ∈ runPairs d bankCode runId statuses) :
    row.2.1 ∈ d.transactions ∧ row.2.2 ∈ d.transactions := by
  obtain ⟨r, -, h⟩ := List.mem_filterMap.mp h
  simp only [Option.bind_eq_bind, Option.bind_eq_some_iff] at h
  obtain ⟨internal, hinternal, external, hexternal, h⟩ := h
  split at h
  · cases h
    exact ⟨List.mem_of_find?_eq_some hinternal, List.mem_of_find?_eq_some hexternal⟩
  · cases h

/-- The prefilter loses no finding. -/
theorem matchedCandidates_eq_every (d : Db) (bankCode : String) (runId : Id)
    (hwritten : ∀ t ∈ d.transactions, t.WrittenByPipeline) :
    svc.matchedCandidates d bankCode runId = svc.everyMatchedCandidates d bankCode runId := by
  have hnone : ∀ row ∈ runPairs d bankCode runId [.autoMatched, .confirmed],
      mayHaveFinding svc.taxonomy.detection row.2.1 row.2.2 = false →
        svc.matchedPairCandidates d bankCode row = .ok [] := by
    intro row hrow hquiet
    obtain ⟨hinternal, hexternal⟩ := mem_runPairs hrow
    have h := analyseMatched_of_not_mayHaveFinding (svc.pairContext d bankCode)
      (hwritten _ hinternal) (hwritten _ hexternal) (some (confidenceOf row.1)) hquiet
    simp only [matchedPairCandidates, analysePair, if_true, h]
    rfl
  exact Traversal.flatten_mapM_filter (svc.matchedPairCandidates d bankCode) _ _ hnone

end ExceptionClassifier

/-! ## A matched pair of a day -/

def writtenRow (id : Id) (source : Source) (reference : String) : NormalisedTransaction :=
  normalisedTransaction 1
    { source, bankCode := "AXIS", sourceLineNo := id, txnDate := 739000, settlementDate := none,
      txnTimestampUtc := 0, amountMinor := 5000, currency := "INR", direction := .cr,
      isReversal := false, counterpartyNameNormalised := none, narration := none,
      originalReferenceText := reference, normalisedReference := reference } id id

def writtenResult (id internal external : Id) : MatchResult where
  id := id
  runId := .run 9
  matchType := .exact
  status := .autoMatched
  confidence := 1000
  internalTransactionId := internal
  externalTransactionId := external
  candidateCount := 1
  matchedOnDate := 739000

/-- Two matched pairs, one of them with a reference that the bank has cut. -/
def matchedDay : Db where
  transactions := [writtenRow 1 .internal "PAY42", writtenRow 2 .external "PAY42",
    writtenRow 3 .internal "PAYMENT-REFERENCE-17", writtenRow 4 .external "PAYMENT-REFERENC"]
  results := [writtenResult 5 1 2, writtenResult 6 3 4]

theorem writtenRow_written (id : Id) (source : Source) (reference : String) :
    (writtenRow id source reference).WrittenByPipeline :=
  Exists.intro 1 (Exists.intro _ (Exists.intro id (Exists.intro id
    (Eq.refl (writtenRow id source reference)))))

theorem matchedDay_written : ∀ t ∈ matchedDay.transactions, t.WrittenByPipeline := by
  intro t ht
  simp only [matchedDay, List.mem_cons, List.not_mem_nil, or_false] at ht
  obtain rfl | rfl | rfl | rfl := ht <;> exact writtenRow_written _ _ _

/-- The first pair is left out, and the finding is that of the second. -/
theorem matchedCandidates_eq_every_day :
    (plainClassifier.everyMatchedCandidates matchedDay "AXIS" 9).map (·.map (·.dedupeKey)) =
        .ok [.matched .referenceTruncated 6] ∧
      plainClassifier.matchedCandidates matchedDay "AXIS" 9 =
        plainClassifier.everyMatchedCandidates matchedDay "AXIS" 9 :=
  ⟨by decide +kernel,
    plainClassifier.matchedCandidates_eq_every matchedDay "AXIS" 9 matchedDay_written⟩

end Recon
