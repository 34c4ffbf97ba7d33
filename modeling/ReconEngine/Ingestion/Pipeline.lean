import ReconEngine.Anomaly.Scan
import ReconEngine.Exceptions.Classifier
import ReconEngine.Ingestion.Normalise

/-!
# Ingesting a file

`IngestionPipeline.process` stores the rows of an uploaded file, normalises those that were parsed,
raises an exception for those that were not, scans the amounts and writes two audit entries, all in
one transaction.

What a parser makes of the file and which card numbers are masked are parameters, and so are the
rules that draft alerts.

What each step writes is stated where it is needed: `Ingestion.Accounting` follows the rows, and
`Histories.Operations` reads the upload as one operation of the engine.

**What it does not establish.** Anything about the file on disk, which is `Ingestion.Vault`, or
about alerts of format changes and card numbers.
-/

set_option autoImplicit false

namespace Recon

open Store.Prog hiding pure bind

/-- What `_parse` gives: the rows, or the refusal of the file. -/
abbrev ParseOutcome := Except ReconError (List ParsedRow)

/-- An upload, as the pipeline gets it. -/
structure Upload where
  config : BankFormats
  formatType : SourceFormat
  source : Source
  contentSha256 : String
  sizeBytes : Nat
  parsed : ParseOutcome

structure IngestionPipeline where
  lib : TextLibrary
  /-- `mask_pans`: the masked text and how many numbers it masked. -/
  maskPans : String → String × Nat
  classifier : ExceptionClassifier
  anomalies : AnomalyService
  ingestionAlerts : IngestionFile → Nat → List AlertDraft
  uniquenessAlerts : Db → IngestionFile → List AlertDraft
  actor : String

structure IngestionResult where
  ingestionFileId : Id
  parsedCount : Nat
  errorCount : Nat
  panMaskedCount : Nat
deriving DecidableEq, Repr

structure NormalisationResult where
  normalisedCount : Nat
  failures : List String
deriving DecidableEq, Repr

structure UploadOutcome where
  result : IngestionResult
  normalised : NormalisationResult
  classified : ClassifierOutcome
  alertsRaised : Nat
deriving DecidableEq, Repr

def ingestionChain : String := "ingestion"

def SourceFormat.text : SourceFormat → String
  | .csv => "CSV"
  | .mt940 => "MT940"
  | .camt053 => "CAMT053"

def Source.text : Source → String
  | .internal => "INTERNAL"
  | .external => "EXTERNAL"

/-! ## Storing the rows -/

/-- `mask_mapping`. -/
def maskMapping (maskPans : String → String × Nat) (values : List (String × String)) :
    List (String × String) × Nat :=
  (values.map fun (key, text) => (key, (maskPans text).1),
    (values.map fun (_, text) => (maskPans text).2).sum)

/-- `_mask_pans` of one row; a number in the raw text and in its mapped field counts once. -/
def maskRow (maskPans : String → String × Nat) (row : ParsedRow) : ParsedRow × Nat :=
  let rawFields := maskMapping maskPans row.rawFields
  let mapped := maskMapping maskPans row.mapped
  let errors := row.errors.map fun e => { e with detail := (maskPans e.detail).1 }
  let count := max rawFields.2 mapped.2 + (row.errors.map fun e => (maskPans e.detail).2).sum
  if count = 0 then (row, 0)
  else ({ row with rawFields := rawFields.1, mapped := mapped.1, errors := errors }, count)

/-- The columns `_persist_rows` stores of a row. -/
def rawTransaction (file : IngestionFile) (row : ParsedRow) (id : Id) : RawTransaction where
  id := id
  ingestionFileId := file.id
  bankCode := file.bankCode
  sourceLineNo := some row.lineNo
  rawFields := row.rawFields
  mapped := row.mapped
  parseStatus := if row.isValid then .parsed else .quarantined
  parseErrors := if row.isValid then none else some row.errors

/-- `_persist_rows`. -/
def persistRows (file : IngestionFile) : List ParsedRow → Prog Unit
  | [] => return ()
  | row :: rows => do
    let id ← newId
    put (.insertRaw (rawTransaction file row id))
    persistRows file rows

namespace IngestionPipeline

variable (p : IngestionPipeline)

/-- `create_ingestion_file`: a file with the same content is refused. -/
def createIngestionFile (bankCode contentSha256 : String) (now : Instant) : Prog IngestionFile := do
  let d ← tables
  require (!(d.files.any (·.contentSha256 = contentSha256)))
    (.valueError "file was already ingested")
  let id ← newId
  lockRow (.fileKey contentSha256)
  let d ← tables
  require (!(d.files.any (·.contentSha256 = contentSha256)))
    (.integrity "ingestion_files_content_sha256_key")
  let file := { id, bankCode, ingestedAt := now, contentSha256 }
  put (.insertFile file)
  return file

/-- `ingest_file`. -/
def ingestFile (up : Upload) (now : Instant) : Prog (IngestionFile × IngestionResult) := do
  require (up.config.supportedFormats.contains up.formatType)
    (.valueError "the bank's configuration does not list the format")
  let rows ← ofExcept up.parsed
  let file ← createIngestionFile up.config.bankCode up.contentSha256 now
  let masked := rows.map (maskRow p.maskPans)
  persistRows file (masked.map (·.1))
  let valid := (masked.map (·.1)).filter (·.isValid)
  return (file, ⟨file.id, valid.length, masked.length - valid.length, (masked.map (·.2)).sum⟩)

end IngestionPipeline

/-! ## Normalising the parsed rows -/

/-- `find_parsed_raw_transactions`. -/
def Db.parsedRaw (d : Db) (file : Id) : List RawTransaction :=
  (d.rawTransactions.filter fun row =>
    row.ingestionFileId = file ∧ row.parseStatus = .parsed).insertionSort fun a b =>
      (nullsLast a.sourceLineNo b.sourceLineNo).isLE = true

/-- `_reconstruct_parsed_row`. -/
def RawTransaction.parsedRow (raw : RawTransaction) : ParsedRow where
  lineNo := raw.sourceLineNo.getD 0
  rawFields := raw.rawFields
  mapped := raw.mapped

/-- The rows that normalise, with their sources, and the messages of those that do not. A failure
of any other kind ends the loop. -/
def normaliseRows (lib : TextLibrary) (config : BankFormats) (formatType : SourceFormat)
    (source : Source) :
    List RawTransaction → Except ReconError (List (CanonicalTransaction × Id) × List String)
  | [] => .ok ([], [])
  | raw :: raws =>
    match normalise lib raw.parsedRow config formatType source with
    | .ok canonical => do
      let (pending, failures) ← normaliseRows lib config formatType source raws
      return ((canonical, raw.id) :: pending, failures)
    | .error (.rejected message) => do
      let (pending, failures) ← normaliseRows lib config formatType source raws
      return (pending, message :: failures)
    | .error (.raised error) => .error error

/-- The columns `_columns` stores of a canonical transaction. -/
def normalisedTransaction (file : Id) (canonical : CanonicalTransaction) (raw id : Id) :
    NormalisedTransaction where
  id := id
  rawTransactionId := raw
  ingestionFileId := file
  source := canonical.source
  bankCode := canonical.bankCode
  sourceLineNo := some canonical.sourceLineNo
  txnDate := canonical.txnDate
  settlementDate := canonical.settlementDate
  txnTimestampUtc := canonical.txnTimestampUtc
  amountMinor := canonical.amountMinor
  currency := canonical.currency
  direction := canonical.direction
  isReversal := canonical.isReversal
  counterpartyNameNormalised := canonical.counterpartyNameNormalised
  narration := canonical.narration
  narrationNormalised := none
  originalReferenceText := some canonical.originalReferenceText
  normalisedReference := some canonical.normalisedReference
  matchStatus := .unmatched
  voidedOriginalId := none

/-- `save_many`. -/
def saveMany (file : Id) : List (CanonicalTransaction × Id) → Prog Unit
  | [] => return ()
  | (canonical, raw) :: pending => do
    let id ← newId
    put (.insertTransaction (normalisedTransaction file canonical raw id))
    saveMany file pending

/-- `normalise_ingestion_file`. -/
def normaliseIngestionFile (lib : TextLibrary) (file : Id) (up : Upload) :
    Prog NormalisationResult := do
  let d ← tables
  let (pending, failures) ← ofExcept
    (normaliseRows lib up.config up.formatType up.source (d.parsedRaw file))
  saveMany file pending
  return ⟨pending.length, failures⟩

/-! ## The pipeline -/

namespace IngestionPipeline

variable (p : IngestionPipeline)

/-- The entries at the end: what was ingested, and what was normalised. -/
def entry (action : String) (file : Id) (after : List (PyKey × PyValue)) (rationale : String)
    (now : Instant) : AuditEvent where
  chainId := ingestionChain
  actorType := "USER"
  actorId := p.actor
  actionType := action
  affectedRecords := .dict [(.str "ingestion_file_id", .str (toString file))]
  rationale := rationale
  occurredAt := { utc := now }
  afterState := .dict after

/-- `IngestionPipeline.process`. -/
def process (up : Upload) (now : Instant) : Prog UploadOutcome := do
  let (file, result) ← p.ingestFile up now
  let normalised ← normaliseIngestionFile p.lib file.id up
  let classified ← p.classifier.classifyIngestionFile file.id now
  let scanned ← p.anomalies.scanIngestionFile file.id now
  let surfaced ← raiseAlerts (p.ingestionAlerts file result.panMaskedCount) now
  let d ← tables
  let repeated ← raiseAlerts (if up.source = .external then p.uniquenessAlerts d file else []) now
  let alerts := scanned.alertsRaised + surfaced + repeated
  let _ ← p.classifier.logger.append (p.entry "INGEST" file.id
    [(.str "bank_code", .str up.config.bankCode), (.str "format_type", .str up.formatType.text),
      (.str "source", .str up.source.text), (.str "size_bytes", .int up.sizeBytes),
      (.str "content_sha256", .str up.contentSha256),
      (.str "record_count", .int (result.parsedCount + result.errorCount)),
      (.str "parsed_count", .int result.parsedCount), (.str "error_count", .int result.errorCount),
      (.str "pan_masked_count", .int result.panMaskedCount), (.str "alerts_raised", .int alerts)]
    "file uploaded and ingested" now)
  let _ ← p.classifier.logger.append (p.entry "NORMALISE" file.id
    [(.str "normalised_count", .int normalised.normalisedCount),
      (.str "failed_count", .int normalised.failures.length)]
    "parsed rows normalised to the canonical model" now)
  return ⟨result, normalised, classified, alerts⟩

end IngestionPipeline

end Recon
