import ReconEngine.Store.Prog
import ReconEngine.Store.Rows

/-!
# The tables of the engine

The rows the matching, exception, run and audit services read and write, with the columns they
read. Identifiers are numbers handed out by the store, dates are day ordinals, instants are
microseconds of UTC, amounts are minor units, and a confidence is in thousandths (the column is
`NUMERIC(4,3)`). Columns no modelled function reads are left out, and so are the free texts that
only a person reads.

A `RowWrite` is one row-level effect of a statement; `RowWrite.apply` is its meaning. `schema`
puts the tables, the locks, the marks and the writes together for the programs of `Store/Prog`.

**What it does not establish.** Constraints are not part of the tables: a unique index or a check is
a statement of the program that writes the row (`Matching.Claims`, `Runs.Service`), and what holds
of the tables at all times is an invariant that is proved (`Matching.Ledger`,
`Histories.Soundness`).
-/

set_option autoImplicit false

namespace Recon

open Store (updateIn)

abbrev Id := Nat

/-- A calendar day as its proleptic ordinal. -/
abbrev Date := Int

/-- Microseconds since the epoch, in UTC. -/
abbrev Instant := Int

/-! ## Values of JSON columns -/

/-- A dictionary key: a string, or something else, known by its `repr`. -/
inductive PyKey where
  | str (s : String)
  | other (repr : String)
deriving DecidableEq, Repr

/-- A value as Python holds it when it hands a JSON column over. Text is valid Unicode. -/
inductive PyValue where
  | none
  | bool (b : Bool)
  | int (n : Int)
  | float (repr : String)
  | str (s : String)
  | list (items : List PyValue)
  | tuple (items : List PyValue)
  | dict (entries : List (PyKey × PyValue))
  | other (typeName : String)

/-! ## `repr` of a text -/

/-- The control, format, separator and private-use characters of Unicode 14, without the space. A
code point that is assigned to nothing is taken to be printable. -/
def unprintableRanges : List (Nat × Nat) :=
  [(0x0, 0x1f), (0x7f, 0xa0), (0xad, 0xad), (0x600, 0x605), (0x61c, 0x61c), (0x6dd, 0x6dd),
    (0x70f, 0x70f), (0x890, 0x891), (0x8e2, 0x8e2), (0x1680, 0x1680), (0x180e, 0x180e),
    (0x2000, 0x200f), (0x2028, 0x202f), (0x205f, 0x206f), (0x3000, 0x3000), (0xe000, 0xf8ff),
    (0xfeff, 0xfeff), (0xfff9, 0xfffb), (0x110bd, 0x110bd), (0x110cd, 0x110cd), (0x13430, 0x13438),
    (0x1bca0, 0x1bca3), (0x1d173, 0x1d17a), (0xe0001, 0xe0001), (0xe0020, 0xe007f),
    (0xf0000, 0x10ffff)]

/-- `c.isprintable()`. -/
def isPrintable (c : Char) : Bool :=
  unprintableRanges.all fun (first, last) => c.toNat < first ∨ last < c.toNat

/-- One character between the quotes. -/
def reprChar (quote c : Char) : List Char :=
  let hex (width : Nat) := (Nat.toDigits 16 c.toNat).leftpad width '0'
  if c = quote ∨ c = '\\' then ['\\', c]
  else if c = '\t' then ['\\', 't']
  else if c = '\n' then ['\\', 'n']
  else if c = '\r' then ['\\', 'r']
  else if isPrintable c then [c]
  else if c.toNat < 0x100 then '\\' :: 'x' :: hex 2
  else if c.toNat < 0x10000 then '\\' :: 'u' :: hex 4
  else '\\' :: 'U' :: hex 8

/-- `repr(text)`: in single quotes, and in double quotes when only single ones occur in it. -/
def pythonRepr (text : String) : String :=
  let quote := if '\x27' ∈ text.toList ∧ '\x22' ∉ text.toList then '\x22' else '\x27'
  String.ofList (quote :: (text.toList.flatMap (reprChar quote) ++ [quote]))

/-! ## Ingested rows -/

inductive ParseStatus where
  | pending
  | parsed
  | quarantined
deriving DecidableEq, Repr

structure ParseError where
  code : String
  field : Option String
  detail : String
deriving DecidableEq, Repr

/-- A row as a parser hands it over, before normalisation. -/
structure ParsedRow where
  lineNo : Int
  rawFields : List (String × String)
  mapped : List (String × String)
  errors : List ParseError := []
deriving DecidableEq, Repr

structure RawTransaction where
  id : Id
  ingestionFileId : Id
  bankCode : String
  sourceLineNo : Option Int
  rawFields : List (String × String)
  mapped : List (String × String)
  parseStatus : ParseStatus
  parseErrors : Option (List ParseError)
deriving DecidableEq, Repr

/-! ## Transactions and matches -/

inductive Source where
  | internal
  | external
deriving DecidableEq, Repr

inductive Direction where
  | dr
  | cr
deriving DecidableEq, Repr

inductive MatchStatus where
  | unmatched
  | claimed
  | matched
  | voided
deriving DecidableEq, Repr

structure NormalisedTransaction where
  id : Id
  rawTransactionId : Id
  ingestionFileId : Id
  source : Source
  bankCode : String
  sourceLineNo : Option Int
  txnDate : Date
  settlementDate : Option Date
  txnTimestampUtc : Instant
  amountMinor : Int
  currency : String
  direction : Direction
  isReversal : Bool
  counterpartyNameNormalised : Option String
  narration : Option String
  narrationNormalised : Option String
  originalReferenceText : Option String
  normalisedReference : Option String
  matchStatus : MatchStatus
  voidedOriginalId : Option Id
deriving DecidableEq, Repr

inductive MatchType where
  | exact
  | fuzzy
  | rule
  | split
  | netted
  | crossCurrency
  | manual
deriving DecidableEq, Repr

inductive ResultStatus where
  | autoMatched
  | pendingReview
  | confirmed
  | rejected
deriving DecidableEq, Repr

/-- The `run_id` text of a match: a run's id, `manual:{user}` or `auto-resolve:{rule}`. -/
inductive MatchOrigin where
  | run (id : Id)
  | manual (user : String)
  | autoResolve (ruleId : String)
deriving DecidableEq, Repr

/-- The group columns of `matched_fields`: the single side and its members. -/
structure GroupFields where
  singleTransactionId : Id
  memberTransactionIds : List Id
deriving DecidableEq, Repr

/-- The columns of a match result, without the identifier. -/
structure MatchColumns where
  runId : MatchOrigin
  matchType : MatchType
  status : ResultStatus
  confidence : Nat
  internalTransactionId : Id
  externalTransactionId : Id
  candidateCount : Nat
  ruleId : Option String := none
  matchGroupId : Option Id := none
  groupFields : Option GroupFields := none
  matchedOnDate : Date
  reviewedBy : Option String := none
deriving DecidableEq, Repr

structure MatchResult extends MatchColumns where
  id : Id
deriving DecidableEq, Repr

inductive ClaimRole where
  | internal
  | external
  | member
deriving DecidableEq, Repr

inductive ClaimStatus where
  | active
  | released
deriving DecidableEq, Repr

structure MatchClaim where
  id : Id
  normalisedTransactionId : Id
  matchResultId : Option Id
  role : ClaimRole
  status : ClaimStatus
deriving DecidableEq, Repr

/-! ## Exceptions -/

inductive ExceptionCategory where
  | missingInternal
  | missingExternal
  | amountMismatch
  | duplicateInternal
  | duplicateExternal
  | dateMismatch
  | currencyMismatch
  | directionReversal
  | partialMatch
  | nettedSettlement
  | feeDeduction
  | fxVariance
  | staleTransaction
  | formatError
  | referenceTruncated
  | timezoneOffset
  | reversalPending
  | regulatoryHold
  | settlementDelay
deriving DecidableEq, Repr

inductive ExceptionSeverity where
  | critical
  | high
  | medium
  | low
deriving DecidableEq, Repr

inductive ExceptionStatus where
  | open
  | inReview
  | escalated
  | resolved
  | writtenOff
  | reopened
deriving DecidableEq, Repr

/-- The `dedupe_key` text: the category followed by what the exception is about. -/
inductive DedupeKey where
  | txn (category : ExceptionCategory) (id : Id)
  | pair (category : ExceptionCategory) (internal external : Id)
  | matched (category : ExceptionCategory) (result : Id)
  | group (category : ExceptionCategory) (group : Id)
  | file (id : Id)
  | raw (id : Id)
deriving DecidableEq, Repr

/-- The `affected_records` dictionary, key by key; an absent key is `none` or the empty list. -/
structure AffectedRecords where
  normalisedTransactionIds : List Id := []
  originalTransactionId : Option Id := none
  internalTransactionId : Option Id := none
  externalTransactionId : Option Id := none
  matchResultId : Option Id := none
  matchGroupId : Option Id := none
  matchResultIds : List Id := []
  singleTransactionId : Option Id := none
  memberTransactionIds : List Id := []
  alreadyMatched : Bool := false
  rawTransactionIds : List Id := []
deriving DecidableEq, Repr

/-- The transactions that the dictionary names. -/
def AffectedRecords.transactions (r : AffectedRecords) : List Id :=
  r.normalisedTransactionIds ++ r.originalTransactionId.toList ++ r.internalTransactionId.toList ++
    r.externalTransactionId.toList ++ r.singleTransactionId.toList ++ r.memberTransactionIds

structure ReconException where
  id : Id
  dedupeKey : DedupeKey
  category : ExceptionCategory
  severity : ExceptionSeverity
  status : ExceptionStatus
  assignedTier : Nat
  assignedTo : Option String := none
  bankCode : String
  runId : Option Id
  ingestionFileId : Option Id := none
  affectedRecords : AffectedRecords
  createdAt : Instant
  slaDeadline : Instant
  slaBreachedAt : Option Instant := none
  resolvedAt : Option Instant := none
  resolvedBy : Option String := none
deriving DecidableEq, Repr

inductive EventType where
  | created
  | escalated
  | slaBreached
  | assigned
  | resolved
  | overridden
  | reopened
deriving DecidableEq, Repr

structure ExceptionEvent where
  exceptionId : Id
  eventType : EventType
  fromTier : Option Nat
  toTier : Nat
  actor : String
  occurredAt : Instant
deriving DecidableEq, Repr

structure LedgerAdjustment where
  exceptionId : Id
  bankCode : String
  internalTransactionId : Id
  externalTransactionId : Id
  amountMinor : Int
  currency : String
deriving DecidableEq, Repr

/-! ## Audit, runs and the rest -/

structure AuditLog where
  eventId : Id
  chainId : String
  sequenceNo : Int
  occurredAt : Instant
  actorType : String
  actorId : String
  actionType : String
  affectedRecords : PyValue
  beforeState : PyValue
  afterState : PyValue
  rationale : String
  prevHash : Option String
  currentHash : String
  serialisationVersion : Int

inductive RunStatus where
  | pending
  | running
  | completed
  | failed
deriving DecidableEq, Repr

inductive RunMode where
  | fast
  | full
deriving DecidableEq, Repr

/-- The metrics of a run; rates, durations and breakdowns are left out. -/
structure RunMetrics where
  counts : List (String × Int)
  mode : RunMode
  dateFrom : Option Date
  dateTo : Option Date
  /-- The version and the hash of the bank's configuration. -/
  bankConfig : Option (String × String)
  alertsRaised : Int := 0
deriving DecidableEq, Repr

structure ReconciliationRun where
  id : Id
  idempotencyKey : String
  bankCode : String
  status : RunStatus
  mode : RunMode
  dateFrom : Option Date
  dateTo : Option Date
  requestedBy : String
  startedAt : Option Instant
  completedAt : Option Instant := none
  metrics : Option RunMetrics := none
  errorSummary : Option String := none
deriving DecidableEq, Repr

structure IngestionFile where
  id : Id
  bankCode : String
  ingestedAt : Instant
  anomalyScannedAt : Option Instant := none
  /-- Unique among the files. -/
  contentSha256 : String := ""
deriving DecidableEq, Repr

/-- The unique key of a statistics row. -/
structure StatKey where
  bankCode : String
  source : Source
  counterparty : String
  direction : Direction
  currency : String
deriving DecidableEq, Repr

/-- Rolling statistics; the numeric columns hold exact values. -/
structure RollingStats where
  count : Nat
  mean : Rat
  m2 : Rat
  activeDays : Nat
  lastActiveDate : Date
deriving DecidableEq, Repr

/-- A row of statistics, known by its unique key. -/
structure CounterpartyStat where
  key : StatKey
  stats : RollingStats
deriving DecidableEq, Repr

inductive FxSource where
  | rbi
  | fbil
  | bankCard
deriving DecidableEq, Repr

structure FxRate where
  currency : String
  rateDate : Date
  rateInr : Rat
  source : FxSource
  suspect : Bool
deriving DecidableEq, Repr

structure BankConfiguration where
  id : Id
  bankCode : String
  configVersion : String
  contentSha256 : String
  isActive : Bool
  loadedBy : String
  loadedAt : Instant
deriving DecidableEq, Repr

structure Alert where
  id : Id
  alertType : String
  severity : String
  bankCode : Option String
  routeTo : String
  dedupeKey : String
  runId : Option Id
  createdAt : Instant
deriving DecidableEq, Repr

structure Db where
  transactions : List NormalisedTransaction := []
  results : List MatchResult := []
  claims : List MatchClaim := []
  exceptions : List ReconException := []
  events : List ExceptionEvent := []
  adjustments : List LedgerAdjustment := []
  audit : List AuditLog := []
  runs : List ReconciliationRun := []
  files : List IngestionFile := []
  rates : List FxRate := []
  configurations : List BankConfiguration := []
  alerts : List Alert := []
  rawTransactions : List RawTransaction := []
  stats : List CounterpartyStat := []

/-! ## Writes -/

/-- The columns of an exception that an update may set. -/
structure ExceptionColumns where
  status : Option ExceptionStatus := none
  assignedTier : Option Nat := none
  assignedTo : Option (Option String) := none
  slaBreachedAt : Option Instant := none
  resolvedAt : Option (Option Instant) := none
  resolvedBy : Option (Option String) := none
deriving DecidableEq, Repr

def ExceptionColumns.set (c : ExceptionColumns) (e : ReconException) : ReconException :=
  { e with
    status := c.status.getD e.status
    assignedTier := c.assignedTier.getD e.assignedTier
    assignedTo := c.assignedTo.getD e.assignedTo
    slaBreachedAt := c.slaBreachedAt <|> e.slaBreachedAt
    resolvedAt := c.resolvedAt.getD e.resolvedAt
    resolvedBy := c.resolvedBy.getD e.resolvedBy }

/-- The columns of a run that an update may set. -/
structure RunColumns where
  status : Option RunStatus := none
  startedAt : Option Instant := none
  completedAt : Option Instant := none
  metrics : Option (Option RunMetrics) := none
  errorSummary : Option (Option String) := none
deriving DecidableEq, Repr

def RunColumns.set (c : RunColumns) (r : ReconciliationRun) : ReconciliationRun :=
  { r with
    status := c.status.getD r.status
    startedAt := c.startedAt <|> r.startedAt
    completedAt := c.completedAt <|> r.completedAt
    metrics := c.metrics.getD r.metrics
    errorSummary := c.errorSummary.getD r.errorSummary }

inductive RowWrite where
  | insertTransaction (t : NormalisedTransaction)
  | transactionStatus (id : Id) (status : MatchStatus)
  | voidTransaction (id original : Id)
  | insertResult (r : MatchResult)
  | resultStatus (id : Id) (status : ResultStatus) (reviewedBy : String)
  | insertClaim (c : MatchClaim)
  | claimResult (id result : Id)
  | releaseClaim (id : Id)
  | insertException (e : ReconException)
  | updateException (id : Id) (columns : ExceptionColumns)
  | insertEvent (e : ExceptionEvent)
  | insertAdjustment (a : LedgerAdjustment)
  | insertAudit (a : AuditLog)
  | insertRun (r : ReconciliationRun)
  | updateRun (id : Id) (columns : RunColumns)
  | insertFile (f : IngestionFile)
  | insertConfiguration (c : BankConfiguration)
  | updateConfiguration (c : BankConfiguration)
  | insertAlert (a : Alert)
  | fileScanned (id : Id) (now : Instant)
  | insertRaw (r : RawTransaction)
  | insertStat (s : CounterpartyStat)
  | updateStat (key : StatKey) (stats : RollingStats)

namespace Db

def updateTransaction (ids : List Id) (f : NormalisedTransaction → NormalisedTransaction)
    (d : Db) : Db :=
  { d with transactions := updateIn (·.id) ids f d.transactions }

def updateResult (ids : List Id) (f : MatchResult → MatchResult) (d : Db) : Db :=
  { d with results := updateIn (·.id) ids f d.results }

def updateClaim (ids : List Id) (f : MatchClaim → MatchClaim) (d : Db) : Db :=
  { d with claims := updateIn (·.id) ids f d.claims }

end Db

def RowWrite.apply : RowWrite → Db → Db
  | .insertTransaction t, d => { d with transactions := d.transactions ++ [t] }
  | .transactionStatus id status, d =>
    d.updateTransaction [id] fun t => { t with matchStatus := status }
  | .voidTransaction id original, d =>
    d.updateTransaction [id] fun t =>
      { t with matchStatus := .voided, voidedOriginalId := some original }
  | .insertResult r, d => { d with results := d.results ++ [r] }
  | .resultStatus id status reviewedBy, d =>
    d.updateResult [id] fun r => { r with status := status, reviewedBy := some reviewedBy }
  | .insertClaim c, d => { d with claims := d.claims ++ [c] }
  | .claimResult id result, d => d.updateClaim [id] fun c => { c with matchResultId := some result }
  | .releaseClaim id, d => d.updateClaim [id] fun c => { c with status := .released }
  | .insertException e, d => { d with exceptions := d.exceptions ++ [e] }
  | .updateException id columns, d =>
    { d with exceptions := updateIn (·.id) [id] columns.set d.exceptions }
  | .insertEvent e, d => { d with events := d.events ++ [e] }
  | .insertAdjustment a, d => { d with adjustments := d.adjustments ++ [a] }
  | .insertAudit a, d => { d with audit := d.audit ++ [a] }
  | .insertRun r, d => { d with runs := d.runs ++ [r] }
  | .updateRun id columns, d => { d with runs := updateIn (·.id) [id] columns.set d.runs }
  | .insertFile f, d => { d with files := d.files ++ [f] }
  | .insertConfiguration c, d => { d with configurations := d.configurations ++ [c] }
  | .updateConfiguration c, d =>
    { d with configurations := updateIn (·.id) [c.id] (fun _ => c) d.configurations }
  | .insertAlert a, d => { d with alerts := d.alerts ++ [a] }
  | .fileScanned id now, d =>
    { d with files := updateIn (·.id) [id] (fun f => { f with anomalyScannedAt := some now }) d.files }
  | .insertRaw r, d => { d with rawTransactions := d.rawTransactions ++ [r] }
  | .insertStat s, d => { d with stats := d.stats ++ [s] }
  | .updateStat key stats, d =>
    { d with stats := d.stats.map fun s => if s.key = key then { s with stats := stats } else s }

/-! ## Locks, marks and errors -/

/-- What a transaction can hold: a row, a value of a unique index, or the advisory lock of an
audit chain. -/
inductive RowLock where
  | transaction (id : Id)
  | claimKey (transaction : Id)
  | result (id : Id)
  | exception (id : Id)
  | exceptionKey (key : DedupeKey)
  | adjustmentKey (exception : Id)
  | chain (chainId : String)
  | run (id : Id)
  | runKey (idempotencyKey : String)
  | runSlot (bankCode : String)
  | configuration (bankCode : String)
  | alertKey (key : String)
  | file (id : Id)
  | fileKey (contentSha256 : String)
  | statKey (key : StatKey)
deriving DecidableEq, Repr

/-- What a program goes on to rely on after an unlocked read. -/
inductive Mark where
  | transaction (id : Id)
  | rejectedPairs (internals externals : List Id)
  | run (id : Id)
  | stats (keys : List StatKey)
deriving DecidableEq, Repr

/-- What is read for the current transaction only; a worker relies on its run to the end. -/
def Mark.transient : Mark → Bool
  | .transaction _ | .rejectedPairs _ _ | .stats _ => true
  | .run _ => false

inductive ReconError where
  | claimConflict (transactions : List Id)
  | transactionNotFound (what : String)
  | invalidPair (message : String)
  | transactionUnavailable (message : String)
  | matchNotUnmatchable (status : ResultStatus)
  | matchNotFound (id : Id)
  | matchNotPending (status : ResultStatus)
  | reviewState (message : String)
  | notAutoResolvable (message : String)
  | setBasedExact (matched claimed updated : Nat)
  | canonicalisation (message : String)
  | valueError (message : String)
  /-- A signal of the decimal context. -/
  | arithmetic (signal : String)
  | indexError (message : String)
  | keyError (key : String)
  | integrity (constraint : String)
  | lookup (message : String)
  | runState (message : String)
  | runAlreadyActive (bankCode : String)
  | idempotencyConflict
  /-- An answer of the API that is not a success. -/
  | http (status : Nat) (detail : String)
  /-- Whatever the surroundings raise: a lost connection, a time-out, a broken file. -/
  | environment (name : String)
deriving DecidableEq, Repr

/-- `str` of an exception, up to the identifiers and statuses it quotes. -/
def ReconError.message : ReconError → String
  | .claimConflict _ => "one of the transactions already has an active claim"
  | .transactionNotFound what => what
  | .invalidPair message => message
  | .transactionUnavailable message => message
  | .matchNotUnmatchable _ => "only an automatic or confirmed match can be unmatched"
  | .matchNotFound _ => "match not found"
  | .matchNotPending _ => "match is already decided"
  | .reviewState message => message
  | .notAutoResolvable message => message
  | .setBasedExact .. => "pairs, claims and status updates differ in number"
  | .canonicalisation message => message
  | .valueError message => message
  | .arithmetic signal => "[<class 'decimal." ++ signal ++ "'>]"
  | .indexError message => message
  | .keyError key => key
  | .integrity constraint => constraint
  | .lookup message => message
  | .runState message => message
  | .runAlreadyActive bankCode => "a run for " ++ bankCode ++ " is already in progress"
  | .idempotencyConflict => "idempotency key was already used for a different request"
  | .http _ detail => detail
  | .environment name => name

/-- An `Except` bind that ends well: both of its parts do. -/
theorem except_bind_ok {ε α β : Type} {x : Except ε α} {f : α → Except ε β} {b : β}
    (h : x >>= f = .ok b) : ∃ a, x = .ok a ∧ f a = .ok b := by
  cases x with
  | error e => cases h
  | ok a => exact ⟨a, rfl, h⟩

/-- The store the engine works on. -/
abbrev schema : Store.Schema where
  Db := Db
  Lock := RowLock
  Mark := Mark
  Write := RowWrite
  Err := ReconError
  apply := RowWrite.apply
  transient := Mark.transient

/-- A program of the engine. -/
abbrev Prog (α : Type) := Store.Prog schema α

abbrev Session := Store.Session schema

/-- Read the tables as the transaction sees them. -/
def tables : Prog Db := Store.Prog.view

/-- The same, going on to rely on `marks` without locking them. -/
def tablesMarking (marks : Db → List Mark) : Prog Db := Store.Prog.viewing marks

section

variable {Q : Db → Session → Prop} {E : ReconError → Session → Prop} {s : Session}
  {W : RowWrite → Prop}

@[simp] theorem wp_tables : tables.wp Q E s ↔ Q s.view s := Iff.rfl

@[simp] theorem wp_tablesMarking {marks : Db → List Mark} :
    (tablesMarking marks).wp Q E s ↔ Q s.view s := Iff.rfl

@[simp] theorem work_tables : tables.Work W := fun _ => trivial

@[simp] theorem work_tablesMarking (marks : Db → List Mark) : (tablesMarking marks).Work W :=
  fun _ => trivial

end

end Recon
