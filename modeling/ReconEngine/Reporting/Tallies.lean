import ReconEngine.Anomaly.Absence
import ReconEngine.Exceptions.Escalation
import ReconEngine.Exceptions.PairAnalysis
import ReconEngine.Reporting.Models
import ReconEngine.Reporting.Rupees
import ReconEngine.Runs.Backlog
import ReconEngine.Tabular.Tally

/-!
# The daily report and the ageing report

Both reports are tables of counts by bank. The daily report runs one query for each kind of row and
joins what these find by bank; the ageing report sorts open exceptions into buckets by their age.

**The law of the day** (`daily_adds_up`): every bank that is configured or has something to show has
one line, and the lines add up to what the tables hold. **The law of ages** (`ageing_adds_up`): each
open exception counts in one bucket, and the buckets, the lines of the banks and the open exceptions
agree.

**What they do not establish.** That the counts of two reports agree: the daily report counts the
days of its period, the ageing report what is open at its moment. Rates and percentages are texts of
the counts.
-/

set_option autoImplicit false

namespace Recon

open Tabular

/-! ## The daily report -/

/-- Columns that the reports read and nothing else does: when a run was created, and the value of an
exception in paise, where it has one. -/
structure ReportColumns where
  runCreatedAt : Id → Instant
  impactInr : Id → Option Int

/-- How the generator shows a rate and a percentage, as `str` shows the rounded floats. -/
structure RateNotation where
  rate : Nat → Nat → String
  percent : Nat → Nat → String

/-- What the four queries found of one bank. -/
structure DailyRow where
  bank : String
  total : Nat
  matched : Nat
  runs : Nat
  failedRuns : Nat
  created : Nat
  stillOpen : Nat
  onTime : Nat
  carried : Nat
  carriedInr : Int
deriving DecidableEq, Repr

/-- The sums of the lines. -/
structure DailyTotals where
  total : Nat := 0
  matched : Nat := 0
  created : Nat := 0
  stillOpen : Nat := 0
  onTime : Nat := 0
  carried : Nat := 0
  carriedInr : Int := 0
  failedRuns : Nat := 0
deriving DecidableEq, Repr

def DailyTotals.add (totals : DailyTotals) (row : DailyRow) : DailyTotals where
  total := totals.total + row.total
  matched := totals.matched + row.matched
  created := totals.created + row.created
  stillOpen := totals.stillOpen + row.stillOpen
  onTime := totals.onTime + row.onTime
  carried := totals.carried + row.carried
  carriedInr := totals.carriedInr + row.carriedInr
  failedRuns := totals.failedRuns + row.failedRuns

/-- Resolved by the deadline, or not resolved and neither stamped nor late. -/
def ReconException.onTime (e : ReconException) (now : Instant) : Bool :=
  match e.resolvedAt with
  | some moment => moment ≤ e.slaDeadline
  | none => e.slaBreachedAt.isNone && now ≤ e.slaDeadline

/-- A report of one day. -/
structure DailyReport where
  banks : List String
  now : Instant
  day : Date
  columns : ReportColumns
  ratios : RateNotation
  showInstant : Instant → String

namespace DailyReport

variable (r : DailyReport) (d : Db)

/-- `_day_bounds`. -/
def start : Instant := utcMidnight r.day

def finish : Instant := r.start + dayMicros

def within (moment : Instant) : Bool := r.start ≤ moment && moment < r.finish

def transactions : List NormalisedTransaction := d.transactions.filter fun t => t.txnDate = r.day

def runs : List ReconciliationRun :=
  d.runs.filter fun run => r.within (r.columns.runCreatedAt run.id)

def createdExceptions : List ReconException := d.exceptions.filter fun e => r.within e.createdAt

def carriedForward : List ReconException :=
  d.exceptions.filter fun e => e.createdAt < r.start ∧ e.status.isOpen

/-- `coalesce(sum(financial_impact_inr_minor), 0)`. -/
def impactSum (es : List ReconException) : Int :=
  (es.map fun e => (r.columns.impactInr e.id).getD 0).sum

/-- The banks that are configured or found by a query. -/
def bankCodes : List String :=
  (r.banks ++ classesOf (·.bankCode) (r.transactions d) ++ classesOf (·.bankCode) (r.runs d) ++
    classesOf (·.bankCode) (r.createdExceptions d) ++
    classesOf (·.bankCode) (r.carriedForward d)).dedup.insertionSort (· ≤ ·)

/-- One line: what each query has for the bank, or nothing. -/
def row (code : String) : DailyRow :=
  let txn := ((grouped (·.bankCode) (r.transactions d)).lookup code).getD []
  let runs := ((grouped (·.bankCode) (r.runs d)).lookup code).getD []
  let created := ((grouped (·.bankCode) (r.createdExceptions d)).lookup code).getD []
  let carried := ((grouped (·.bankCode) (r.carriedForward d)).lookup code).getD []
  { bank := code
    total := txn.length
    matched := (txn.filter fun t => t.matchStatus = .matched).length
    runs := runs.length
    failedRuns := (runs.filter fun run => run.status = .failed).length
    created := created.length
    stillOpen := (created.filter fun e => e.status.isOpen).length
    onTime := (created.filter fun e => e.onTime r.now).length
    carried := carried.length
    carriedInr := r.impactSum carried }

def rows : List DailyRow := (r.bankCodes d).map (r.row d)

/-- The loop over the banks. -/
def totals : DailyTotals := (r.rows d).foldl DailyTotals.add {}

/-- The exceptions of the day by category and severity, the largest count first. -/
def byCategory : List ((ExceptionCategory × ExceptionSeverity) × Nat) :=
  ((grouped (fun e => (e.category, e.severity)) (r.createdExceptions d)).map fun group =>
    (group.1, group.2.length)).insertionSort fun a b =>
      b.2 < a.2 ∨ b.2 = a.2 ∧ a.1.1.text ≤ b.1.1.text

def autoResolvedCount : Nat :=
  ((r.createdExceptions d).filter fun e => e.resolvedBy = some autoResolver).length

def cells (row : DailyRow) : List Cell :=
  [.str row.bank, .int row.total, .int row.matched, .float (r.ratios.rate row.matched row.total),
    .int row.runs, .int row.created, .int row.stillOpen,
    .float (r.ratios.percent row.onTime row.created), .int row.carried,
    .str (formatInr (some row.carriedInr))]

/-- `daily`. -/
def daily : Report where
  kind := "daily"
  title := "Daily Reconciliation Report, " ++ isoformat r.day
  generatedAt := r.showInstant r.now
  parameters := [("date", .str (isoformat r.day))]
  summary :=
    let t := r.totals d
    [("transactions", .int t.total), ("matched", .int t.matched),
      ("match_rate", .float (r.ratios.rate t.matched t.total)),
      ("exceptions_created", .int t.created),
      ("exceptions_auto_resolved", .int (r.autoResolvedCount d)),
      ("exceptions_still_open", .int t.stillOpen),
      ("sla_compliance_percent", .float (r.ratios.percent t.onTime t.created)),
      ("unresolved_carry_forward", .int t.carried),
      ("carry_forward_value", .str (formatInr (some t.carriedInr))),
      ("failed_runs", .int t.failedRuns)]
  tables :=
    [⟨"Per bank", ["Bank", "Transactions", "Matched", "Match rate", "Runs", "Exceptions created",
        "Still open", "SLA compliance %", "Carried forward", "Carry-forward value"],
        (r.rows d).map r.cells⟩,
      ⟨"Exceptions by category", ["Category", "Severity", "Count"],
        (r.byCategory d).map fun entry =>
          [.str entry.1.1.text, .str entry.1.2.text, .int entry.2]⟩]
  notes :=
    ["Transactions are those dated on the report day. Exceptions are those created " ++
      "on it (UTC). Carry-forward is every exception still open that was created before it."]

variable {r d}

theorem bankCodes_nodup : (r.bankCodes d).Nodup := by
  unfold bankCodes
  rw [(List.perm_insertionSort _ _).nodup_iff]
  exact List.nodup_dedup _

theorem mem_bankCodes {code : String} :
    code ∈ r.bankCodes d ↔ code ∈ r.banks ∨ (∃ t ∈ r.transactions d, t.bankCode = code) ∨
      (∃ run ∈ r.runs d, run.bankCode = code) ∨
      (∃ e ∈ r.createdExceptions d, e.bankCode = code) ∨
      ∃ e ∈ r.carriedForward d, e.bankCode = code := by
  unfold bankCodes
  simp only [List.mem_insertionSort, List.mem_dedup, List.mem_append, mem_classesOf, or_assoc]

/-- The lines in terms of the classes of the banks. -/
theorem row_eq (code : String) :
    r.row d code =
      { bank := code
        total := (ofClass (·.bankCode) code (r.transactions d)).length
        matched := (ofClass (·.bankCode) code
          ((r.transactions d).filter fun t => t.matchStatus = .matched)).length
        runs := (ofClass (·.bankCode) code (r.runs d)).length
        failedRuns := (ofClass (·.bankCode) code
          ((r.runs d).filter fun run => run.status = .failed)).length
        created := (ofClass (·.bankCode) code (r.createdExceptions d)).length
        stillOpen := (ofClass (·.bankCode) code
          ((r.createdExceptions d).filter fun e => e.status.isOpen)).length
        onTime := (ofClass (·.bankCode) code
          ((r.createdExceptions d).filter fun e => e.onTime r.now)).length
        carried := (ofClass (·.bankCode) code (r.carriedForward d)).length
        carriedInr := r.impactSum (ofClass (·.bankCode) code (r.carriedForward d)) } := by
  unfold row
  simp only [lookup_grouped, filter_ofClass]

/-- The totals are the sums of the lines. -/
theorem foldl_add (rows : List DailyRow) (t : DailyTotals) :
    rows.foldl DailyTotals.add t =
      { total := t.total + (rows.map (·.total)).sum
        matched := t.matched + (rows.map (·.matched)).sum
        created := t.created + (rows.map (·.created)).sum
        stillOpen := t.stillOpen + (rows.map (·.stillOpen)).sum
        onTime := t.onTime + (rows.map (·.onTime)).sum
        carried := t.carried + (rows.map (·.carried)).sum
        carriedInr := t.carriedInr + (rows.map (·.carriedInr)).sum
        failedRuns := t.failedRuns + (rows.map (·.failedRuns)).sum } := by
  induction rows generalizing t with
  | nil => simp
  | cons row rest ih =>
    rw [List.foldl_cons, ih]
    simp only [DailyTotals.add, List.map_cons, List.sum_cons, add_assoc]

/-- **The law of the day.** Every bank that is configured or has a row of the day has one line; the
lines add up to the transactions of the day, the runs, the exceptions that were created and those
that were carried into it; and the categories to the exceptions that were created. -/
theorem daily_adds_up (r : DailyReport) (d : Db) :
    ((r.rows d).map (·.bank)).Nodup ∧
      (∀ code, code ∈ (r.rows d).map (·.bank) ↔
        code ∈ r.banks ∨ (∃ t ∈ r.transactions d, t.bankCode = code) ∨
          (∃ run ∈ r.runs d, run.bankCode = code) ∨
          (∃ e ∈ r.createdExceptions d, e.bankCode = code) ∨
          ∃ e ∈ r.carriedForward d, e.bankCode = code) ∧
      r.totals d =
        { total := (r.transactions d).length
          matched := ((r.transactions d).filter fun t => t.matchStatus = .matched).length
          created := (r.createdExceptions d).length
          stillOpen := ((r.createdExceptions d).filter fun e => e.status.isOpen).length
          onTime := ((r.createdExceptions d).filter fun e => e.onTime r.now).length
          carried := (r.carriedForward d).length
          carriedInr := r.impactSum (r.carriedForward d)
          failedRuns := ((r.runs d).filter fun run => run.status = .failed).length } ∧
      ((r.byCategory d).map (·.2)).sum = (r.createdExceptions d).length := by
  have hbanks : (r.rows d).map (·.bank) = r.bankCodes d := by
    unfold rows
    rw [List.map_map]
    exact List.map_id' _
  have htransactions : ∀ t ∈ r.transactions d, t.bankCode ∈ r.bankCodes d := fun t ht =>
    mem_bankCodes.mpr (.inr (.inl ⟨t, ht, rfl⟩))
  have hruns : ∀ run ∈ r.runs d, run.bankCode ∈ r.bankCodes d := fun run hrun =>
    mem_bankCodes.mpr (.inr (.inr (.inl ⟨run, hrun, rfl⟩)))
  have hcreated : ∀ e ∈ r.createdExceptions d, e.bankCode ∈ r.bankCodes d := fun e he =>
    mem_bankCodes.mpr (.inr (.inr (.inr (.inl ⟨e, he, rfl⟩))))
  have hcarried : ∀ e ∈ r.carriedForward d, e.bankCode ∈ r.bankCodes d := fun e he =>
    mem_bankCodes.mpr (.inr (.inr (.inr (.inr ⟨e, he, rfl⟩))))
  have hsome : ∀ {α : Type} {rows : List α} {key : α → String} (p : α → Bool),
      (∀ a ∈ rows, key a ∈ r.bankCodes d) → ∀ a ∈ rows.filter p, key a ∈ r.bankCodes d :=
    fun p h a ha => h a (List.mem_filter.mp ha).1
  refine ⟨hbanks ▸ bankCodes_nodup, fun code => by rw [hbanks, mem_bankCodes], ?_, ?_⟩
  · have hmap : ∀ {β : Type} (f : DailyRow → β),
        (r.rows d).map f = (r.bankCodes d).map fun code => f (r.row d code) := by
      intro β f
      unfold rows
      rw [List.map_map]
      rfl
    unfold totals
    rw [foldl_add]
    simp only [hmap, row_eq, zero_add, impactSum]
    rw [length_classes _ bankCodes_nodup htransactions,
      length_classes _ bankCodes_nodup (hsome _ htransactions),
      length_classes _ bankCodes_nodup hcreated,
      length_classes _ bankCodes_nodup (hsome _ hcreated),
      length_classes _ bankCodes_nodup (hsome _ hcreated),
      length_classes _ bankCodes_nodup hcarried,
      sum_classes _ _ bankCodes_nodup hcarried,
      length_classes _ bankCodes_nodup (hsome _ hruns)]
  · unfold byCategory
    rw [((List.perm_insertionSort _ _).map _).sum_eq]
    unfold grouped
    rw [List.map_map, List.map_map]
    exact length_classes _ (classesOf_nodup _ _) fun e he => mem_classesOf.mpr ⟨e, he, rfl⟩

end DailyReport

/-! ## The ageing report -/

inductive AgeBucket where
  | underOneHour
  | oneToFour
  | fourToDay
  | overDay
deriving DecidableEq, Repr

namespace AgeBucket

def all : List AgeBucket := [.underOneHour, .oneToFour, .fourToDay, .overDay]

def text : AgeBucket → String
  | .underOneHour => "< 1 hour"
  | .oneToFour => "1-4 hours"
  | .fourToDay => "4-24 hours"
  | .overDay => "> 24 hours"

theorem mem_all (b : AgeBucket) : b ∈ all := by cases b <;> decide

/-- The bucket of an age in microseconds. -/
def ofAge (age : Int) : AgeBucket :=
  if age < microsecondsPerHour then .underOneHour
  else if age < 4 * microsecondsPerHour then .oneToFour
  else if age < 24 * microsecondsPerHour then .fourToDay
  else .overDay

end AgeBucket

/-- Exceptions, their value, and how many of them have none. -/
@[ext]
structure AgeTally where
  count : Nat := 0
  inr : Int := 0
  unvalued : Nat := 0
deriving DecidableEq, Repr

namespace AgeTally

instance : Zero AgeTally := ⟨{}⟩

instance : Add AgeTally :=
  ⟨fun t t' => ⟨t.count + t'.count, t.inr + t'.inr, t.unvalued + t'.unvalued⟩⟩

@[simp] theorem zero_count : (0 : AgeTally).count = 0 := rfl
@[simp] theorem zero_inr : (0 : AgeTally).inr = 0 := rfl
@[simp] theorem zero_unvalued : (0 : AgeTally).unvalued = 0 := rfl
@[simp] theorem add_count (t t' : AgeTally) : (t + t').count = t.count + t'.count := rfl
@[simp] theorem add_inr (t t' : AgeTally) : (t + t').inr = t.inr + t'.inr := rfl
@[simp] theorem add_unvalued (t t' : AgeTally) :
    (t + t').unvalued = t.unvalued + t'.unvalued := rfl

/-- Lines of the table add up column by column. -/
instance : AddCommMonoid AgeTally where
  add_assoc a b c := by ext <;> simp [add_assoc]
  zero_add a := by ext <;> simp
  add_zero a := by ext <;> simp
  add_comm a b := by ext <;> simp [add_comm]
  nsmul := nsmulRec

end AgeTally

def oldestListed : Nat := 20

structure AgeingReport where
  now : Instant
  impactInr : Id → Option Int
  showInstant : Instant → String
  /-- Hours, rounded to one place. -/
  showHours : Int → String

namespace AgeingReport

variable (r : AgeingReport) (d : Db)

def openExceptions : List ReconException := d.exceptions.filter fun e => e.status.isOpen

def bucket (e : ReconException) : AgeBucket := .ofAge (r.now - e.createdAt)

/-- What a grouping query gives of some exceptions. -/
def tally (es : List ReconException) : AgeTally where
  count := es.length
  inr := (es.map fun e => (r.impactInr e.id).getD 0).sum
  unvalued := (es.filter fun e => (r.impactInr e.id).isNone).length

/-- The rows of the query: a bucket, a bank and what they have. -/
def groups : List ((AgeBucket × String) × AgeTally) :=
  (grouped (fun e => (r.bucket e, e.bankCode)) (openExceptions d)).map fun group =>
    (group.1, r.tally group.2)

/-- The loop over the rows, for the buckets. -/
def byBucket (b : AgeBucket) : AgeTally :=
  (r.groups d).foldl (fun t group => if group.1.1 = b then t + group.2 else t) 0

/-- The loop over the rows, for the banks and buckets. -/
def byBank (bank : String) (b : AgeBucket) : Nat :=
  (r.groups d).foldl (fun n group => if group.1 = (b, bank) then n + group.2.count else n) 0

def bankCodes : List String := (classesOf (·.1.2) (r.groups d)).insertionSort (· ≤ ·)

def totalOpen : Nat := (AgeBucket.all.map fun b => (r.byBucket d b).count).sum

def totalInr : Int := (AgeBucket.all.map fun b => (r.byBucket d b).inr).sum

def oldest : List ReconException :=
  ((openExceptions d).insertionSort fun a b =>
    a.createdAt < b.createdAt ∨ a.createdAt = b.createdAt ∧ a.id ≤ b.id).take oldestListed

/-- `exception_ageing`. -/
def exceptionAgeing : Report where
  kind := "exception-ageing"
  title := "Exception Ageing Report"
  generatedAt := r.showInstant r.now
  parameters := [("as_of", .str (r.showInstant r.now))]
  summary :=
    [("open_exceptions", .int (r.totalOpen d)),
      ("open_value", .str (formatInr (some (r.totalInr d)))),
      ("older_than_24_hours", .int (r.byBucket d .overDay).count)]
  tables :=
    [⟨"By age", ["Age", "Open exceptions", "Financial impact", "Without an INR value"],
        AgeBucket.all.map fun b =>
          [.str b.text, .int (r.byBucket d b).count,
            .str (formatInr (some (r.byBucket d b).inr)), .int (r.byBucket d b).unvalued]⟩,
      ⟨"By bank and age", "Bank" :: AgeBucket.all.map AgeBucket.text,
        (r.bankCodes d).map fun bank =>
          .str bank :: AgeBucket.all.map fun b => .int (r.byBank d bank b)⟩,
      ⟨"Oldest " ++ toString oldestListed ++ " open exceptions",
        ["Id", "Bank", "Category", "Severity", "Tier", "Age (hours)", "Impact"],
        (oldest d).map fun e =>
          [.str (idText e.id), .str e.bankCode, .str e.category.text, .str e.severity.text,
            .int e.assignedTier, .float (r.showHours (r.now - e.createdAt)),
            .str (formatInr (r.impactInr e.id))]⟩]
  notes :=
    ["Age is time since the exception was created. Impact is the INR-equivalent; an " ++
      "exception in a currency with no available rate has no INR value and is counted " ++
      "separately rather than added in at face value."]

variable {r d}

/-- What one exception adds. -/
def single (r : AgeingReport) (e : ReconException) : AgeTally where
  count := 1
  inr := (r.impactInr e.id).getD 0
  unvalued := if (r.impactInr e.id).isNone then 1 else 0

/-- A tally is the sum of the tallies of single exceptions. -/
theorem tally_eq (es : List ReconException) : r.tally es = (es.map r.single).sum := by
  induction es with
  | nil => rfl
  | cons e rest ih =>
    rw [List.map_cons, List.sum_cons, ← ih]
    ext
    · simp [tally, single, add_comm]
    · simp [tally, single]
    · by_cases h : (r.impactInr e.id).isNone = true
      · simp [tally, single, h, add_comm]
      · simp [tally, single, h]

/-- A bucket tallies the exceptions of its age. -/
theorem byBucket_eq (b : AgeBucket) :
    r.byBucket d b = r.tally (ofClass r.bucket b (openExceptions d)) := by
  have hloop := foldl_add_if (fun group : (AgeBucket × String) × AgeTally => group.1.1 = b)
    (fun group => group.2) (r.groups d) 0
  simp only [decide_eq_true_eq, zero_add] at hloop
  unfold byBucket
  rw [hloop, tally_eq, ← sum_coarse (fun e => (r.bucket e, e.bankCode)) Prod.fst]
  unfold groups
  rw [List.filter_map, List.map_map]
  congr 1
  exact List.map_congr_left fun group _ => tally_eq group.2

/-- A line counts those of one bank and one age. -/
theorem byBank_eq (bank : String) (b : AgeBucket) :
    r.byBank d bank b =
      (ofClass (fun e => (r.bucket e, e.bankCode)) (b, bank) (openExceptions d)).length := by
  have hloop := foldl_add_if (fun group : (AgeBucket × String) × AgeTally => group.1 = (b, bank))
    (fun group => group.2.count) (r.groups d) 0
  simp only [decide_eq_true_eq, zero_add] at hloop
  have hones : ∀ l : List ReconException, (l.map fun _ => 1).sum = l.length := by
    intro l
    simp
  have hcoarse :=
    sum_coarse (fun e => (r.bucket e, e.bankCode)) id (fun _ => 1) (b, bank) (openExceptions d)
  simp only [hones, id] at hcoarse
  unfold byBank
  rw [hloop, ← hcoarse]
  unfold groups
  rw [List.filter_map, List.map_map]
  rfl

theorem mem_bankCodes {bank : String} :
    bank ∈ r.bankCodes d ↔ ∃ e ∈ openExceptions d, e.bankCode = bank := by
  unfold bankCodes groups grouped
  simp only [List.mem_insertionSort, mem_classesOf, List.map_map, List.mem_map,
    Function.comp_apply]
  constructor
  · intro h
    obtain ⟨-, ⟨k, ⟨e, he, rfl⟩, rfl⟩, rfl⟩ := h
    exact ⟨e, he, rfl⟩
  · intro h
    obtain ⟨e, he, rfl⟩ := h
    exact ⟨_, ⟨_, ⟨e, he, rfl⟩, rfl⟩, rfl⟩

/-- **The law of ages.** Each bucket counts the open exceptions of its age, the total all of them,
and the lines of the banks add up to the buckets; an open exception that is not listed among the
oldest is not older than those that are. -/
theorem ageing_adds_up (r : AgeingReport) (d : Db) :
    (∀ b, r.byBucket d b = r.tally (ofClass r.bucket b (openExceptions d))) ∧
      r.totalOpen d = (openExceptions d).length ∧
      r.totalInr d = ((openExceptions d).map fun e => (r.impactInr e.id).getD 0).sum ∧
      (∀ b, ((r.bankCodes d).map fun bank => r.byBank d bank b).sum = (r.byBucket d b).count) ∧
      ∀ e ∈ openExceptions d, e ∉ oldest d → ∀ listed ∈ oldest d, listed.createdAt ≤ e.createdAt := by
  have hbuckets : ∀ e ∈ openExceptions d, r.bucket e ∈ AgeBucket.all := fun e _ => AgeBucket.mem_all _
  refine ⟨byBucket_eq, ?_, ?_, ?_, ?_⟩
  · unfold totalOpen
    simp only [byBucket_eq, tally]
    exact length_classes r.bucket (by decide) hbuckets
  · unfold totalInr
    simp only [byBucket_eq, tally]
    exact sum_classes r.bucket _ (by decide) hbuckets
  · intro b
    have hnodup : (r.bankCodes d).Nodup := by
      unfold bankCodes
      rw [(List.perm_insertionSort _ _).nodup_iff]
      exact classesOf_nodup _ _
    have hbanks : ∀ e ∈ ofClass r.bucket b (openExceptions d), e.bankCode ∈ r.bankCodes d := fun e he =>
      mem_bankCodes.mpr ⟨e, (mem_ofClass.mp he).1, rfl⟩
    have hsplit : ∀ bank, ofClass (fun e => (r.bucket e, e.bankCode)) (b, bank) (openExceptions d) =
        ofClass (·.bankCode) bank (ofClass r.bucket b (openExceptions d)) := by
      intro bank
      unfold ofClass
      rw [List.filter_filter]
      apply List.filter_congr
      intro e _
      simp [Prod.mk.injEq, and_comm]
    simp only [byBank_eq, hsplit, byBucket_eq, tally]
    exact length_classes _ hnodup hbanks
  · intro e he hnot listed hlisted
    unfold oldest at hnot hlisted
    generalize hsorted : (openExceptions d).insertionSort (fun a b =>
      a.createdAt < b.createdAt ∨ a.createdAt = b.createdAt ∧ a.id ≤ b.id) = sorted at hnot hlisted
    have hpairwise : sorted.Pairwise fun a b =>
        a.createdAt < b.createdAt ∨ a.createdAt = b.createdAt ∧ a.id ≤ b.id := by
      have htotalOrder : ∀ (x y : Int) (i j : Nat), (x < y ∨ x = y ∧ i ≤ j) ∨
          (y < x ∨ y = x ∧ j ≤ i) := by omega
      have htransOrder : ∀ (x y z : Int) (i j k : Nat), (x < y ∨ x = y ∧ i ≤ j) →
          (y < z ∨ y = z ∧ j ≤ k) → (x < z ∨ x = z ∧ i ≤ k) := by omega
      have htotal : Std.Total fun a b : ReconException =>
          a.createdAt < b.createdAt ∨ a.createdAt = b.createdAt ∧ a.id ≤ b.id :=
        ⟨fun a b => htotalOrder a.createdAt b.createdAt a.id b.id⟩
      have htrans : IsTrans ReconException fun a b =>
          a.createdAt < b.createdAt ∨ a.createdAt = b.createdAt ∧ a.id ≤ b.id :=
        ⟨fun a b c => htransOrder a.createdAt b.createdAt c.createdAt a.id b.id c.id⟩
      exact hsorted ▸ List.pairwise_insertionSort _ _
    have hmem : e ∈ sorted := by
      rw [← hsorted, List.mem_insertionSort]
      exact he
    rw [← List.take_append_drop oldestListed sorted, List.mem_append] at hmem
    rw [← List.take_append_drop oldestListed sorted, List.pairwise_append] at hpairwise
    rcases hpairwise.2.2 listed hlisted e (hmem.resolve_left hnot) with h | h
    · exact le_of_lt h
    · exact le_of_eq h.1

end AgeingReport

end Recon
