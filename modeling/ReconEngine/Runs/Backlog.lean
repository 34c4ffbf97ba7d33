import ReconEngine.Runs.Service
import ReconEngine.Matching.Pools
import ReconEngine.Store.Handler
import Mathlib.Data.List.Dedup

/-!
# Recovering a backlog

`BacklogService` works off a bank's unmatched days, newest first: one FAST run a day, each started,
committed, executed and committed, and at the end a queued FULL run over the range of the call.
Every run has a key made of the batch key, the bank and the day or `full`, so that a call that
repeats another one finds its runs. Each bank has its own session; the pass over one bank is
sequential, and what the other banks do in between is part of the session it starts from.

The execution of a run is a parameter of the pass, so that which runs a pass executes can be said
of the pass itself. It is given the identifier of the run that the pass has just started: between the
two nobody else writes, so that the row it reads is the one that the session holds.

**What it does not establish.** That the days of a call are those with unmatched transactions at its
end: they are read once, when the pass over the bank begins. What a repeated call finds is
`Runs.Repeats`; the passes over several banks run in threads, and only their sessions are looked at.
-/

set_option autoImplicit false

namespace Recon

open Store JsonText
open Store.Prog hiding pure bind

/-! ## The pass over one bank -/

/-- The year of a date in four digits. -/
def yearText (year : Int) : List Char :=
  if 0 ≤ year ∧ year < 1000 then padded 4 year.toNat else renderInt year

/-- `date.isoformat`. Day 719163 is 1970-01-01. -/
def isoformat (day : Date) : String :=
  let date := civil (day - 719163)
  String.ofList (yearText date.1 ++ '-' :: (padded 2 date.2.1.toNat ++
    '-' :: padded 2 date.2.2.toNat))

/-- `_days_newest_first`. -/
def Db.daysNewestFirst (d : Db) (bankCode : String) (range : DateRange) : List Date :=
  ((d.transactions.filter fun t => t.bankCode = bankCode ∧ t.matchStatus = .unmatched ∧
    d.isClaimed t.id = false ∧ range.contains t.txnDate = true).map (·.txnDate)).dedup.insertionSort
      (· ≥ ·)

structure DayRun where
  day : Date
  runId : Id
  status : RunStatus
  exactMatched : Int
deriving DecidableEq, Repr

structure BankBacklogResult where
  bankCode : String
  days : List DayRun := []
  failedDays : List Date := []
  queuedFullRunId : Option Id := none
deriving DecidableEq, Repr

/-- The arguments of `BacklogService.run`. -/
structure BacklogCall where
  batchKey : String
  banks : List String
  requestedBy : String
  range : DateRange := {}
  queueFull : Bool := true

/-- What the clock shows a pass, where it looks: at the start and at the execution of a day's run,
and at the start of the queued one. -/
structure BacklogClock where
  startedAt : Date → Instant
  executedAt : Date → Instant
  queuedAt : Instant

def RunMetrics.exactMatched (m : RunMetrics) : Int :=
  ((m.counts.find? fun count => count.1 = "exact_matched").map (·.2)).getD 0

namespace BacklogCall

variable (call : BacklogCall)

/-- What the keys of a bank's runs have in common. -/
def keyOf (bankCode name : String) : String :=
  "backlog:" ++ call.batchKey ++ ":" ++ bankCode ++ ":" ++ name

def dayRequest (bankCode : String) (day : Date) : StartRequest where
  bankCode := bankCode
  idempotencyKey := call.keyOf bankCode (isoformat day)
  requestedBy := call.requestedBy
  mode := .fast
  dateFrom := some day
  dateTo := some day

def fullRequest (bankCode : String) : StartRequest where
  bankCode := bankCode
  idempotencyKey := call.keyOf bankCode "full"
  requestedBy := call.requestedBy
  mode := .full
  dateFrom := call.range.dateFrom
  dateTo := call.range.dateTo
  defer := true

variable (svc : RunService) (execute : Id → Instant → Prog Unit) (clock : BacklogClock)
  (bankCode : String)

/-- The guarded part of a day: `none` where another run of the bank is in progress. -/
def startDay (day : Date) : Prog (Option StartResult) :=
  handle (do
    let started ← svc.start (call.dayRequest bankCode day) (clock.startedAt day)
    commitNow
    if started.created then
      execute started.run.id (clock.executedAt day)
      commitNow
      return some started
    else return some started) fun
      | .runAlreadyActive _ => do
        rollbackNow
        return none
      | e => .fail e

/-- What the result says of a day whose run has been started or found. -/
def dayDone (result : BankBacklogResult) (day : Date) (run : ReconciliationRun) :
    BankBacklogResult :=
  { result with
    failedDays := if run.status ≠ .completed then result.failedDays ++ [day] else result.failedDays
    days := result.days ++
      [⟨day, run.id, run.status, (run.metrics.map RunMetrics.exactMatched).getD 0⟩] }

def dayTurn (result : BankBacklogResult) (day : Date) : Prog BankBacklogResult := do
  match ← call.startDay svc execute clock bankCode day with
  | none => return { result with failedDays := result.failedDays ++ [day] }
  | some started => do
    let d ← tables
    match d.run? started.run.id with
    | none => .fail (.environment "AssertionError")
    | some run => return dayDone result day run

/-- The queued run of a pass. -/
def queue (result : BankBacklogResult) : Prog BankBacklogResult :=
  if call.queueFull then do
    let queued ← svc.start (call.fullRequest bankCode) clock.queuedAt
    commitNow
    if queued.run.status = .pending then
      return { result with queuedFullRunId := some queued.run.id }
    else return result
  else return result

/-- `_process_bank`, over the executions of runs. -/
def processBank : Prog BankBacklogResult := do
  let d ← tables
  let result ← (d.daysNewestFirst bankCode call.range).foldlM
    (call.dayTurn svc execute clock bankCode) { bankCode := bankCode }
  call.queue svc clock bankCode result

/-- `BacklogService.run`: the outcome and the session of every bank. `start` is what the session of
a bank finds when its pass begins, after what the passes before it have done. -/
def run (clocks : String → BacklogClock) (start : String → Session) :
    List (Except ReconError BankBacklogResult × Session) :=
  call.banks.map fun bank =>
    (call.processBank svc execute (clocks bank) bank).exec (start bank)

/-- The requests of days, with what the clock shows at each. -/
def dayRequests (days : List Date) : List (StartRequest × Instant) :=
  days.map fun day => (call.dayRequest bankCode day, clock.startedAt day)

/-- The requests of a pass in order. -/
def requests (d : Db) : List (StartRequest × Instant) :=
  call.dayRequests clock bankCode (d.daysNewestFirst bankCode call.range) ++
    if call.queueFull then [(call.fullRequest bankCode, clock.queuedAt)] else []

end BacklogCall

/-! ## The keys of a pass are different -/

theorem padded_leading {width n : Nat} (h : n < 10 ^ width) :
    padded (width + 1) n = '0' :: padded width n := by
  induction width generalizing n with
  | zero =>
    obtain rfl : n = 0 := by simpa using h
    rfl
  | succ width ih =>
    rw [padded, ih (by omega)]
    rfl

theorem digits_leading {n : Nat} (h : 0 < n) : ∃ c cs, digits n = c :: cs ∧ c ≠ '0' := by
  induction n using Nat.strongRecOn with
  | ind n ih =>
    unfold digits
    by_cases hlt : n < 10
    · rw [Nat.toDigits_of_lt_base hlt]
      have table : ∀ a < 10, 0 < a → Nat.digitChar a ≠ '0' := by decide
      exact ⟨_, [], rfl, table n hlt h⟩
    · obtain ⟨c, cs, hdigits, hc⟩ := ih (n / 10) (by omega) (by omega)
      rw [Nat.toDigits_of_base_le (by decide) (Nat.not_lt.mp hlt), ← digits, hdigits]
      exact ⟨c, _, rfl, hc⟩

/-- A year is told from its text, however many digits it has. -/
theorem yearText_unique {m n : Int} {s t : List Char} (hs : Stops s) (ht : Stops t)
    (h : yearText m ++ s = yearText n ++ t) : m = n ∧ s = t := by
  -- A padded year begins with a zero, and no other year does.
  have mixed : ∀ {a b : Int} {u v : List Char}, (0 ≤ a ∧ a < 1000) → ¬ (0 ≤ b ∧ b < 1000) →
      padded 4 a.toNat ++ u ≠ renderInt b ++ v := by
    intro a b u v ha hb heq
    rw [padded_leading (by omega), renderInt] at heq
    split at heq
    · exact absurd (List.cons.inj heq).1 (by decide)
    · obtain ⟨c, cs, hdigits, hc⟩ := digits_leading (n := b.natAbs) (by omega)
      rw [hdigits] at heq
      exact hc (List.cons.inj heq).1.symm
  unfold yearText at h
  split at h <;> split at h
  · obtain ⟨hmn, hst⟩ := padded_unique (by omega) (by omega) h
    exact ⟨by omega, hst⟩
  · exact absurd h (mixed (by assumption) (by assumption))
  · exact absurd h.symm (mixed (by assumption) (by assumption))
  · exact renderInt_unique hs ht h

/-- The text determines the day. -/
theorem isoformat_inj {a b : Int} (h : isoformat a = isoformat b) : a = b := by
  obtain ⟨⟨hm0, hm⟩, hd0, hd⟩ := civil_ranges (a - 719163)
  obtain ⟨⟨hm0', hm'⟩, hd0', hd'⟩ := civil_ranges (b - 719163)
  have h := String.ofList_injective h
  obtain ⟨hyear, h⟩ := yearText_unique (stops_cons (by decide)) (stops_cons (by decide)) h
  obtain ⟨hmonth, h⟩ := padded_unique (by omega) (by omega) (List.cons.inj h).2
  have hday := padded_inj (by omega) (by omega) (List.cons.inj h).2
  have hdate : civil (a - 719163) = civil (b - 719163) :=
    Prod.ext hyear (Prod.ext (by omega) (by omega))
  have hdays := civil_inj hdate
  clear hdate hyear hmonth hday h hm0 hm hd0 hd hm0' hm' hd0' hd'
  omega

/-- No day is written like the FULL run of a pass. -/
theorem isoformat_ne_full (day : Date) : isoformat day ≠ "full" := by
  intro h
  have hmem : '-' ∈ (isoformat day).toList := by
    simp [isoformat]
  rw [h] at hmem
  exact absurd hmem (by decide)

/-- The keys of a pass are told apart by their ends. -/
theorem BacklogCall.keyOf_inj {call : BacklogCall} {bankCode a b : String}
    (h : call.keyOf bankCode a = call.keyOf bankCode b) : a = b := by
  unfold BacklogCall.keyOf at h
  exact (String.append_right_inj _).mp h

end Recon
