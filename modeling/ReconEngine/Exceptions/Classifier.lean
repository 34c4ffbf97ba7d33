import ReconEngine.Exceptions.PairAnalysis
import ReconEngine.Exceptions.Persist
import ReconEngine.Matching.Review
import ReconEngine.Store.Groups

/-!
# The classifier

`ExceptionClassifier` turns quarantined rows, unmatched leftovers, pairs under review, matched pairs
and groups into candidates, and persists them. Of the leftovers, duplicates come first; then an
external and the one internal that shares its reference, when the pair has a finding; what is still
unpaired is reported as missing on the other side.

Candidates are pure functions of the pools, the pairs of the run and the rates of the day, so the
laws about them need no store: they are in `Exceptions.Leftovers`, `Exceptions.Copies`,
`Exceptions.Findings` and `Exceptions.Prefilter`. Texts for people and the details that nothing
reads back are left out, and the search for a keyword is a predicate of the configuration.

**What it does not establish.** This module has definitions only.
-/

set_option autoImplicit false

namespace Recon

open Store (chunksOf groupsOn)
open Store.Prog hiding pure bind

/-- The persisting service, the configurations of the banks, their calendars, and whether there is a
service for exchange rates. -/
structure ExceptionClassifier extends ExceptionService where
  banks : String → Option BankConfig
  calendars : String → BusinessCalendar
  hasFx : Bool

/-! ## Duplicates -/

/-- The columns that duplicates share. -/
structure DuplicateKey where
  source : Source
  reference : String
  amountMinor : Int
  currency : String
  direction : Direction
  txnDate : Date
deriving DecidableEq, Repr

/-- The key of a transaction, if it has a reference. -/
def duplicateKey (t : NormalisedTransaction) : Option DuplicateKey :=
  (nonBlank t.normalisedReference).map fun reference =>
    ⟨t.source, reference, t.amountMinor, t.currency, t.direction, t.txnDate⟩

namespace Db

/-- `GROUP BY` the key, `HAVING count(*) > 1`. -/
def duplicateKeys (d : Db) (bankCode : String) (range : DateRange) : List DuplicateKey :=
  let keys := (d.transactions.filter fun t =>
    t.bankCode = bankCode ∧ range.contains t.txnDate).filterMap duplicateKey
  keys.dedup.filter fun key => 1 < keys.count key

def ingestedAt? (d : Db) (file : Id) : Option Instant :=
  (d.files.find? (·.id = file)).map (·.ingestedAt)

/-- `ORDER BY ingested_at, source_line_no, id`. -/
def duplicateOrder (d : Db) (a b : NormalisedTransaction) : Bool :=
  ((nullsLast (d.ingestedAt? a.ingestionFileId) (d.ingestedAt? b.ingestionFileId)).then
    ((nullsLast a.sourceLineNo b.sourceLineNo).then (compare a.id b.id))).isLE

/-- The transactions of some keys, with the file they came in. -/
def duplicateMembers (d : Db) (bankCode : String) (keys : List DuplicateKey) :
    List NormalisedTransaction :=
  (d.transactions.filter fun t => t.bankCode = bankCode ∧ (duplicateKey t).any keys.contains ∧
    (d.ingestedAt? t.ingestionFileId).isSome).insertionSort fun a b => d.duplicateOrder a b = true

def dupKeyChunk : Nat := 1000

/-- Every copy after the first of its key, with that first one. -/
def duplicateCopies (d : Db) (bankCode : String) (range : DateRange) :
    List (NormalisedTransaction × NormalisedTransaction) :=
  (chunksOf dupKeyChunk (d.duplicateKeys bankCode range)).flatMap fun keys =>
    (groupsOn duplicateKey (d.duplicateMembers bankCode keys)).flatMap fun group =>
      match group.2 with
      | [] => []
      | original :: copies => copies.map (original, ·)

end Db

/-! ## Candidates -/

/-- An external leftover, the internal one that shares its reference, and what separates them. -/
structure LeftoverPair where
  internal : NormalisedTransaction
  external : NormalisedTransaction
  finding : PairFinding

/-- `by_reference.get(external.normalised_reference or "", [])`. -/
def referencePeers (internals : List NormalisedTransaction) (external : NormalisedTransaction) :
    List NormalisedTransaction :=
  internals.filter fun t => (nonBlank t.normalisedReference).isSome ∧
    t.normalisedReference = external.normalisedReference

/-- One external of the loop: it pairs up with its only peer, if that one is still free and the pair
has a finding. -/
def pairTurn (ctx : PairContext) (internals : List NormalisedTransaction)
    (paired : List LeftoverPair) (external : NormalisedTransaction) :
    Except ReconError (List LeftoverPair) :=
  match referencePeers internals external with
  | [internal] =>
    if internal.id ∈ paired.map (·.internal.id) then .ok paired
    else do
      match ← analysePair internal external ctx false with
      | [] => return paired
      | finding :: _ => return paired ++ [⟨internal, external, finding⟩]
  | _ => .ok paired

/-- `_is_stale`. -/
def isStale (t : NormalisedTransaction) (asOfDate : Option Date) (staleAfterDays : Option Int) :
    Bool :=
  match asOfDate, staleAfterDays with
  | some day, some days => days < day - t.txnDate
  | _, _ => false

/-- The category of a record with no counterpart. A compliance hold outranks a pending reversal,
which outranks staleness, which outranks a delay. -/
def singleCategory (base : ExceptionCategory) (t : NormalisedTransaction) (ctx : PairContext)
    (asOfDate : Option Date) (staleAfterDays : Option Int) : ExceptionCategory :=
  if hasRegulatoryHold t ctx.detection then .regulatoryHold
  else if base = .missingExternal ∧ isPostedReversal t ctx.detection then .reversalPending
  else if isStale t asOfDate staleAfterDays then .staleTransaction
  else if base = .missingExternal ∧ ctx.bank.isSome ∧ asOfDate.any fun day =>
      ctx.settlementDays < ctx.calendar.businessDaysBetween t.txnDate day then .settlementDelay
  else base

namespace ExceptionClassifier

variable (svc : ExceptionClassifier)

/-- `_context`. -/
def pairContext (d : Db) (bankCode : String) : PairContext where
  detection := svc.taxonomy.detection
  calendar := svc.calendars (((svc.banks bankCode).map BankConfig.calendar).getD "in")
  bank := svc.banks bankCode
  fx := if svc.hasFx then some d.quote else none
  fxTolerancePercent := ((svc.banks bankCode).map BankConfig.fxTolerancePercent).getD (3 / 2)

/-- `_inr_minor`; `none` when there is no rate. -/
def inrMinor (d : Db) (t : NormalisedTransaction) : Except ReconError (Option Int) :=
  if t.currency = "INR" then .ok (some t.amountMinor)
  else if !svc.hasFx then .ok none
  else match d.quote t.currency t.txnDate with
    | none => .ok none
    | some q => (toInrMinor t.amountMinor t.currency q.rateInr).map some

/-- `_pair_candidate_from`. -/
def pairCandidate (d : Db) (bankCode : String) (pair : LeftoverPair) (key : DedupeKey)
    (matchResultId : Option Id := none) (alreadyMatched : Bool := false) :
    Except ReconError Candidate := do
  let inr ← svc.inrMinor d pair.external
  return {
    category := pair.finding.category
    dedupeKey := key
    bankCode := bankCode
    affectedRecords :=
      { internalTransactionId := some pair.internal.id
        externalTransactionId := some pair.external.id
        matchResultId := matchResultId
        alreadyMatched := alreadyMatched }
    amountInrMinor := inr
    amountDifferenceMinor := pair.finding.amountDifferenceMinor
    daysOffset := pair.finding.daysOffset
    fuzzyConfidence := pair.finding.fuzzyConfidence
    fxVariancePercent := pair.finding.fxVariancePercent
    valueDate := some pair.external.txnDate }

/-- The candidate of a pair that is not matched. -/
def openPairCandidate (d : Db) (bankCode : String) (pair : LeftoverPair)
    (matchResultId : Option Id := none) : Except ReconError Candidate :=
  svc.pairCandidate d bankCode pair
    (.pair pair.finding.category pair.internal.id pair.external.id) matchResultId

/-- `_single_candidate`. -/
def singleCandidate (d : Db) (base : ExceptionCategory) (ctx : PairContext)
    (asOfDate : Option Date) (staleAfterDays : Option Int) (t : NormalisedTransaction) :
    Except ReconError Candidate := do
  let category := singleCategory base t ctx asOfDate staleAfterDays
  let inr ← svc.inrMinor d t
  return {
    category := category
    dedupeKey := .txn category t.id
    bankCode := t.bankCode
    affectedRecords := { normalisedTransactionIds := [t.id] }
    amountInrMinor := inr
    valueDate := some t.txnDate }

/-- `_duplicate_candidate`, of a copy after its original. -/
def duplicateCandidate (d : Db) (bankCode : String)
    (pair : NormalisedTransaction × NormalisedTransaction) : Except ReconError Candidate := do
  let category : ExceptionCategory :=
    if pair.2.source = .internal then .duplicateInternal else .duplicateExternal
  let inr ← svc.inrMinor d pair.2
  return {
    category := category
    dedupeKey := .txn category pair.2.id
    bankCode := bankCode
    affectedRecords :=
      { normalisedTransactionIds := [pair.2.id], originalTransactionId := some pair.1.id }
    amountInrMinor := inr
    valueDate := some pair.2.txnDate }

/-- `_duplicate_candidates`: the candidates and the identifiers of the copies. -/
def duplicateCandidates (d : Db) (bankCode : String) (range : DateRange) :
    Except ReconError (List Candidate × List Id) := do
  let copies := d.duplicateCopies bankCode range
  let candidates ← copies.mapM (svc.duplicateCandidate d bankCode)
  return (candidates, copies.map (·.2.id))

/-- `_unmatched_candidates`. -/
def unmatchedCandidates (d : Db) (bankCode : String)
    (internals externals : List NormalisedTransaction) (asOfDate : Option Date)
    (staleAfterDays : Option Int) : Except ReconError (List Candidate) := do
  let ctx := svc.pairContext d bankCode
  let paired ← externals.foldlM (pairTurn ctx internals) []
  let pairs ← paired.mapM fun pair => svc.openPairCandidate d bankCode pair
  let missingInternal ← (externals.filter fun t => t.id ∉ paired.map (·.external.id)).mapM
    (svc.singleCandidate d .missingInternal ctx asOfDate staleAfterDays)
  let missingExternal ← (internals.filter fun t => t.id ∉ paired.map (·.internal.id)).mapM
    (svc.singleCandidate d .missingExternal ctx asOfDate staleAfterDays)
  return pairs ++ missingInternal ++ missingExternal

/-- What `classify_unmatched` builds from one state of the tables: the duplicates, then the other
leftovers. -/
def leftoverCandidates (d : Db) (bankCode : String) (asOfDate : Option Date)
    (staleAfterDays : Option Int) (range : DateRange) : Except ReconError (List Candidate) := do
  let (duplicates, duplicateIds) ← svc.duplicateCandidates d bankCode range
  let internals := (d.findUnmatched bankCode .internal range).filter (·.id ∉ duplicateIds)
  let externals := (d.findUnmatched bankCode .external range).filter (·.id ∉ duplicateIds)
  let unmatched ← svc.unmatchedCandidates d bankCode internals externals asOfDate staleAfterDays
  return duplicates ++ unmatched

def classifyUnmatched (bankCode : String) (runId : Id) (now : Instant) (asOfDate : Option Date)
    (staleAfterDays : Option Int) (range : DateRange) : Prog ClassifierOutcome := do
  require (asOfDate.isNone == staleAfterDays.isNone)
    (.valueError "as_of_date and stale_after_days must be given together")
  let d ← tables
  let (duplicates, duplicateIds) ← ofExcept (svc.duplicateCandidates d bankCode range)
  let internals ← findUnmatched bankCode .internal range
  let externals ← findUnmatched bankCode .external range
  let d ← tables
  let unmatched ← ofExcept (svc.unmatchedCandidates d bankCode
    (internals.filter (·.id ∉ duplicateIds)) (externals.filter (·.id ∉ duplicateIds)) asOfDate
    staleAfterDays)
  let candidates := duplicates ++ unmatched
  svc.persist candidates (some runId) now candidates.length

/-! ## Pairs and groups of a run -/

/-- The results of a run on single pairs of the bank, with their sides. -/
def runPairs (d : Db) (bankCode : String) (runId : Id) (statuses : List ResultStatus) :
    List (MatchResult × NormalisedTransaction × NormalisedTransaction) :=
  (d.results.filter fun r => r.runId = .run runId ∧ r.status ∈ statuses ∧
    r.matchGroupId = none).filterMap fun r => do
      let internal ← d.transaction? r.internalTransactionId
      let external ← d.transaction? r.externalTransactionId
      if internal.bankCode = bankCode then some (r, internal, external) else none

/-- A confidence in thousandths. -/
def confidenceOf (r : MatchResult) : Rat := r.confidence / 1000

def pendingReviewCandidates (d : Db) (bankCode : String) (runId : Id) :
    Except ReconError (List Candidate) := do
  let ctx := svc.pairContext d bankCode
  let candidates ← (runPairs d bankCode runId [.pendingReview]).mapM fun (r, internal, external) => do
    let findings ← analysePair internal external ctx false (some (confidenceOf r))
    (findings.take 1).mapM fun finding =>
      svc.openPairCandidate d bankCode ⟨internal, external, finding⟩ (some r.id)
  return candidates.flatten

/-- The SQL conditions under which a matched pair is looked at. -/
def mayHaveFinding (detection : DetectionConfig) (internal external : NormalisedTransaction) :
    Bool :=
  let narration (t : NormalisedTransaction) : String :=
    (t.narrationNormalised <|> t.narration).getD ""
  internal.txnDate ≠ external.txnDate ∨
    external.settlementDate.getD external.txnDate ≠ internal.txnDate ∨
    internal.normalisedReference ≠ external.normalisedReference ∨
    detection.regulatoryHold (narration internal) ∨ detection.regulatoryHold (narration external)

def matchedCandidates (d : Db) (bankCode : String) (runId : Id) :
    Except ReconError (List Candidate) := do
  let ctx := svc.pairContext d bankCode
  let rows := (runPairs d bankCode runId [.autoMatched, .confirmed]).filter fun row =>
    mayHaveFinding svc.taxonomy.detection row.2.1 row.2.2
  let candidates ← rows.mapM fun (r, internal, external) => do
    let findings ← analysePair internal external ctx true (some (confidenceOf r))
    findings.mapM fun finding => svc.pairCandidate d bankCode ⟨internal, external, finding⟩
      (.matched finding.category r.id) (some r.id) true
  return candidates.flatten

/-- The groups that a run made, in the order of their first results. -/
def runGroups (d : Db) (bankCode : String) (runId : Id) : List (Id × List MatchResult) :=
  let results := d.results.filter fun r => r.runId = .run runId ∧ r.matchGroupId.isSome ∧
    (d.transaction? r.internalTransactionId).any (·.bankCode = bankCode)
  (groupsOn (·.matchGroupId) results).filterMap fun (group, results) =>
    group.map fun id => (id, results)

/-- The candidate of a group, known by its first result. -/
def groupCandidate (d : Db) (bankCode : String) (group : Id × List MatchResult) :
    Except ReconError (Option Candidate) :=
  match group.2 with
  | [] => .ok none
  | first :: _ =>
    match first.groupFields with
    | none => .error (.keyError "single_transaction_id")
    | some fields =>
      match d.transaction? fields.singleTransactionId with
      | none => .error (.lookup "No row was found when one was required")
      | some single => do
        let category : ExceptionCategory :=
          if first.matchType = .split then .partialMatch else .nettedSettlement
        let inr ← svc.inrMinor d single
        return some {
          category := category
          dedupeKey := .group category group.1
          bankCode := bankCode
          affectedRecords :=
            { matchGroupId := some group.1
              matchResultIds := group.2.map (·.id)
              singleTransactionId := some single.id
              memberTransactionIds := fields.memberTransactionIds
              alreadyMatched := true }
          amountInrMinor := inr
          valueDate := some single.txnDate }

def groupCandidates (d : Db) (bankCode : String) (runId : Id) :
    Except ReconError (List Candidate) := do
  let candidates ← (runGroups d bankCode runId).mapM (svc.groupCandidate d bankCode)
  return candidates.filterMap id

/-- Build the candidates from the tables and persist them. -/
def classifyWith (candidates : Db → Except ReconError (List Candidate)) (runId : Id)
    (now : Instant) : Prog ClassifierOutcome := do
  let d ← tables
  let candidates ← ofExcept (candidates d)
  svc.persist candidates (some runId) now candidates.length

def classifyPendingReview (bankCode : String) (runId : Id) (now : Instant) :
    Prog ClassifierOutcome :=
  svc.classifyWith (svc.pendingReviewCandidates · bankCode runId) runId now

def classifyMatched (bankCode : String) (runId : Id) (now : Instant) : Prog ClassifierOutcome :=
  svc.classifyWith (svc.matchedCandidates · bankCode runId) runId now

def classifyGroups (bankCode : String) (runId : Id) (now : Instant) : Prog ClassifierOutcome :=
  svc.classifyWith (svc.groupCandidates · bankCode runId) runId now

/-- Everything a run can raise: leftovers first, then the pairs and groups it produced. -/
def classifyRun (bankCode : String) (runId : Id) (now : Instant) (asOfDate : Option Date)
    (staleAfterDays : Option Int) (range : DateRange) : Prog ClassifierOutcome := do
  let unmatched ← svc.classifyUnmatched bankCode runId now asOfDate staleAfterDays range
  let pending ← svc.classifyPendingReview bankCode runId now
  let matched ← svc.classifyMatched bankCode runId now
  let groups ← svc.classifyGroups bankCode runId now
  return ((unmatched.add pending).add matched).add groups

/-! ## Quarantined rows -/

/-- `_format_error_candidates`: one for the file when there are too many rows for independent
errors, else one for each row. -/
def formatErrorCandidates (file : IngestionFile) (rows : List RawTransaction) : List Candidate :=
  if svc.taxonomy.escalation.systemicExceptionCount < rows.length then
    [{ category := .formatError, dedupeKey := .file file.id, bankCode := file.bankCode,
       affectedRecords := {}, ingestionFileId := some file.id }]
  else rows.map fun row =>
    { category := .formatError, dedupeKey := .raw row.id, bankCode := file.bankCode,
      affectedRecords := { rawTransactionIds := [row.id] }, ingestionFileId := some file.id }

end ExceptionClassifier

/-- The quarantined rows of a file, by line. -/
def Db.quarantined (d : Db) (file : Id) : List RawTransaction :=
  (d.rawTransactions.filter fun row =>
    row.ingestionFileId = file ∧ row.parseStatus = .quarantined).insertionSort fun a b =>
      ((nullsLast a.sourceLineNo b.sourceLineNo).then (compare a.id b.id)).isLE = true

def ExceptionClassifier.classifyIngestionFile (svc : ExceptionClassifier) (file : Id)
    (now : Instant) : Prog ClassifierOutcome := do
  let d ← tables
  match d.files.find? (·.id = file) with
  | none => .fail (.lookup "no ingestion file")
  | some row =>
    let rows := d.quarantined file
    svc.persist (svc.formatErrorCandidates row rows) none now rows.length

end Recon
