import ReconEngine.Anomaly.Stats
import ReconEngine.Store.Groups
import ReconEngine.Store.Protocol
import Mathlib.Data.List.Sort

/-!
# The scan of an ingestion file

`scan_ingestion_file` compares the amounts of a file with what is known of their counterparties,
folds them into the stored statistics and raises alerts, once a file. It locks the row of the file;
the rows of statistics it reads without a lock, and writes back as absolute values.

Which alerts are drafted is a parameter of the service.

**What it does not establish.** Which amounts are remarkable: the rules are a parameter, and what
they draft is raised once for each dedupe key. The scan of a file that has been scanned does
nothing.
-/

set_option autoImplicit false

namespace Recon

open Store
open Store.Prog hiding pure bind

/-- The groups of a file's transactions. -/
abbrev StatGroups := List (StatKey × List NormalisedTransaction)

structure AlertDraft where
  alertType : String
  severity : String
  dedupeKey : String
  bankCode : Option String := none
  routeTo : String := "operations"
  runId : Option Id := none
deriving DecidableEq, Repr

structure ScanOutcome where
  alertsRaised : Nat := 0
  transactionsScanned : Nat := 0
  alreadyScanned : Bool := false
deriving DecidableEq, Repr

/-- The rules of the service: what it would raise on a file, from what it has read. -/
structure AnomalyService where
  drafts : Db → IngestionFile → StatGroups → (StatKey → Option RollingStats) → List AlertDraft

/-- `_STATS_CHUNK`. -/
def statsChunk : Nat := 1000

/-! ## Alerts -/

/-- One row of `INSERT … ON CONFLICT DO NOTHING`, and whether it is new. -/
def raiseAlert (draft : AlertDraft) (now : Instant) : Prog Bool := do
  let key := String.ofList (draft.dedupeKey.toList.take 300)
  let d ← tables
  if d.alerts.any (·.dedupeKey = key) then return false
  lockRow (.alertKey key)
  let d ← tables
  if d.alerts.any (·.dedupeKey = key) then return false
  let id ← newId
  put (.insertAlert ⟨id, draft.alertType, draft.severity, draft.bankCode, draft.routeTo, key,
    draft.runId, now⟩)
  return true

/-- `raise_alerts`: how many of the drafts were not raised before. -/
def raiseAlerts (drafts : List AlertDraft) (now : Instant) : Prog Nat :=
  drafts.foldlM (fun raised draft => do
    let new ← raiseAlert draft now
    return raised + if new then 1 else 0) 0

/-! ## Statistics -/

/-- The statistics that rows hold under a key. -/
def statOf (rows : List CounterpartyStat) (key : StatKey) : Option RollingStats :=
  (rows.find? (·.key = key)).map (·.stats)

def Db.statOf (d : Db) (key : StatKey) : Option RollingStats := Recon.statOf d.stats key

namespace NormalisedTransaction

/-- The counterparty is neither null nor empty. -/
def hasCounterparty (t : NormalisedTransaction) : Bool :=
  t.counterpartyNameNormalised ≠ none ∧ t.counterpartyNameNormalised ≠ some ""

/-- `_key`. -/
def statKey (t : NormalisedTransaction) : StatKey :=
  ⟨t.bankCode, t.source, t.counterpartyNameNormalised.getD "", t.direction, t.currency⟩

/-- By date, instant and identifier. -/
def scannedBefore (t t' : NormalisedTransaction) : Bool :=
  t.txnDate < t'.txnDate ∨ t.txnDate = t'.txnDate ∧
    (t.txnTimestampUtc < t'.txnTimestampUtc ∨
      t.txnTimestampUtc = t'.txnTimestampUtc ∧ t.id ≤ t'.id)

end NormalisedTransaction

/-- `_transactions`: those of the file that name a counterparty. -/
def Db.scanTransactions (d : Db) (fileId : Id) : List NormalisedTransaction :=
  (d.transactions.filter fun t => t.ingestionFileId = fileId ∧ t.hasCounterparty = true).insertionSort
    fun t t' => t.scannedBefore t' = true

/-- `_load_stats`: one query a chunk of keys. -/
def loadStats (keys : List StatKey) : Prog (List CounterpartyStat) :=
  (chunksOf statsChunk keys).foldlM (fun rows chunk => do
    let d ← tablesMarking fun _ => [.stats chunk]
    return rows ++ d.stats.filter (·.key ∈ chunk)) []

/-- The rows that `_update_stats` finds: the banks, sources and counterparties of the keys. -/
def Db.existingStats (d : Db) (keys : List StatKey) : List CounterpartyStat :=
  d.stats.filter fun row =>
    (row.key.bankCode, row.key.source) ∈ keys.map (fun key => (key.bankCode, key.source)) ∧
      row.key.counterparty ∈ keys.map (·.counterparty)

/-- The new values of a group, from what was known before it. -/
def foldGroup (baseline : StatKey → Option RollingStats)
    (group : StatKey × List NormalisedTransaction) : Option CounterpartyStat :=
  (observeAll (baseline group.1) group.2).map fun stats => ⟨group.1, stats⟩

/-- The update of a row that exists. -/
def saveStat (stat : CounterpartyStat) : Prog Unit := do
  lockRow (.statKey stat.key)
  put (.updateStat stat.key stat.stats)

/-- The insertion of a row, under its unique key. -/
def insertStat (stat : CounterpartyStat) : Prog Unit := do
  lockRow (.statKey stat.key)
  let d ← tables
  require (d.statOf stat.key).isNone (.integrity "uq_counterparty_stats_key")
  put (.insertStat stat)

def eachStat (one : CounterpartyStat → Prog Unit) : List CounterpartyStat → Prog Unit
  | [] => return ()
  | stat :: stats => do
    one stat
    eachStat one stats

/-- `_update_stats`: rows that exist are updated, the others inserted. -/
def updateStats (groups : StatGroups) (baseline : StatKey → Option RollingStats) : Prog Unit := do
  let d ← tables
  let existing := d.existingStats (groups.map (·.1))
  require (groups.all fun group => (foldGroup baseline group).isSome)
    (.environment "AssertionError")
  let current := groups.filterMap (foldGroup baseline)
  eachStat saveStat (current.filter fun stat => existing.any (·.key = stat.key))
  eachStat insertStat (current.filter fun stat => !existing.any (·.key = stat.key))

/-! ## The scan -/

variable (svc : AnomalyService)

/-- `scan_ingestion_file`. -/
def AnomalyService.scanIngestionFile (fileId : Id) (now : Instant) : Prog ScanOutcome := do
  lockRow (.file fileId)
  let d ← tables
  match d.files.find? (·.id = fileId) with
  | none => .fail (.lookup "no ingestion file")
  | some file =>
    if file.anomalyScannedAt.isSome then return { alreadyScanned := true } else
    let d ← tables
    let transactions := d.scanTransactions fileId
    let groups := groupsOn (·.statKey) transactions
    let baseline ← loadStats (groups.map (·.1))
    let d ← tables
    let drafts := svc.drafts d file groups (statOf baseline)
    updateStats groups (statOf baseline)
    put (.fileScanned fileId now)
    let alertsRaised ← raiseAlerts drafts now
    return { alertsRaised, transactionsScanned := transactions.length }

/-- A scan as a client of its own, committed when it succeeds. -/
def AnomalyService.scanClient (fileId : Id) (now : Instant) : Client schema where
  prog := (svc.scanIngestionFile fileId now).bind fun _ => .commitNow

end Recon
