import ReconEngine.Anomaly.Scan
import ReconEngine.Matching.Rules
import ReconEngine.Ingestion.Normalise
import ReconEngine.Runs.Backlog

/-!
# The absence of a settlement

`check_absence` looks, for each bank, whether its settlement of the local day is overdue, and drafts
an alert when no file counts as received.

**The law** (`absenceDrafts_iff`): an alert is drafted when nothing arrived on the local day, provided
the files that the query counts and the files of the local day are both none or both some. They are
not the same files: the query counts from midnight in UTC of the local date, or from the due moment
where that is earlier. East of Greenwich the first hours of the day are missing, west of it the
evening before is counted as well.

**What it does not establish.** That a file which arrived is the settlement: any file of the bank
counts. Offsets of time zones are a parameter, and so is the calendar of the bank.
-/

set_option autoImplicit false

namespace Recon

open Store.Prog hiding pure bind

/-! ## Clocks -/

/-- An `HH:MM` text, as the configuration has accepted it. -/
structure ClockTime where
  hour : Nat
  minute : Nat
  hour_lt : hour < 24
  minute_lt : minute < 60
deriving DecidableEq, Repr

def minuteMicros : Int := 60000000

def dayMicros : Int := 86400000000

/-- The time of day. -/
def ClockTime.timeOfDay (t : ClockTime) : Int := (t.hour * 60 + t.minute) * minuteMicros

/-- The wall clock, which is what local times of one zone are compared by. -/
def LocalTime.wallClock (t : LocalTime) : Int := t.date * dayMicros + t.time

/-- A time zone: local times of instants, and the instants of local times. -/
structure Zone where
  toLocal : Instant → LocalTime
  toUtc : LocalTime → Instant

/-- Midnight of a day in UTC. Day 719163 is 1970-01-01. -/
def utcMidnight (day : Date) : Instant := (day - 719163) * dayMicros

/-! ## The check -/

/-- What the check uses of a bank. -/
structure SettlingBank where
  code : String
  expectedSettlementTime : Option ClockTime
  zone : Zone
  calendar : BusinessCalendar

/-- What the query reads of an ingestion file. -/
structure ReceivedFile where
  bankCode : String
  source : Option Source
  status : String
  ingestedAt : Instant
deriving DecidableEq, Repr

/-- The local business day and the due moment, when `now` is more than the grace past it. -/
def expectedSettlementOverdue (now : Instant) (expectedTime : ClockTime) (zone : Zone)
    (calendar : BusinessCalendar) (graceMinutes : Nat) : Option (Date × Instant) :=
  let localNow := zone.toLocal now
  if calendar.isBusinessDay localNow.date then
    let due : LocalTime := ⟨localNow.date, expectedTime.timeOfDay⟩
    if due.wallClock + graceMinutes * minuteMicros < localNow.wallClock then
      some (localNow.date, zone.toUtc due)
    else none
  else none

/-- A file of the bank that is neither internal nor a rejected duplicate. -/
def ReceivedFile.isSettlementOf (code : String) (file : ReceivedFile) : Bool :=
  file.bankCode = code && file.source ≠ some .internal && file.status ≠ "REJECTED_DUPLICATE"

/-- The files that the query counts. -/
def receivedSince (files : List ReceivedFile) (code : String) (start : Instant) : Nat :=
  files.countP fun file => file.isSettlementOf code && start ≤ file.ingestedAt

/-- The draft of one bank. -/
def absenceDraft (files : List ReceivedFile) (now : Instant) (graceMinutes : Nat)
    (bank : SettlingBank) : Option AlertDraft := do
  let expectedTime ← bank.expectedSettlementTime
  let (day, due) ←
    expectedSettlementOverdue now expectedTime bank.zone bank.calendar graceMinutes
  if receivedSince files bank.code (min due (utcMidnight day)) ≠ 0 then none
  else some {
    alertType := "ABSENCE"
    severity := "HIGH"
    dedupeKey := "absence:" ++ bank.code ++ ":" ++ isoformat day
    bankCode := some bank.code }

def absenceDrafts (files : List ReceivedFile) (now : Instant) (graceMinutes : Nat)
    (banks : List SettlingBank) : List AlertDraft :=
  banks.filterMap (absenceDraft files now graceMinutes)

/-- `check_absence`. -/
def checkAbsence (files : List ReceivedFile) (now : Instant) (graceMinutes : Nat)
    (banks : List SettlingBank) : Prog Nat :=
  raiseAlerts (absenceDrafts files now graceMinutes banks) now

/-! ## The local day -/

namespace SettlingBank

variable (bank : SettlingBank) (files : List ReceivedFile) (now : Instant) (graceMinutes : Nat)

/-- The local date. -/
def today : Date := (bank.zone.toLocal now).date

/-- The due moment of the local day. -/
def dueAt (expectedTime : ClockTime) : Instant :=
  bank.zone.toUtc ⟨bank.today now, expectedTime.timeOfDay⟩

/-- It is a business day, and the clock is more than the grace past the expected time. -/
def OverdueBy (expectedTime : ClockTime) : Prop :=
  bank.calendar.isBusinessDay (bank.today now) = true ∧
    LocalTime.wallClock ⟨bank.today now, expectedTime.timeOfDay⟩ + graceMinutes * minuteMicros <
      (bank.zone.toLocal now).wallClock

/-- The settlement of the local day is overdue. -/
def Overdue : Prop := ∃ t, bank.expectedSettlementTime = some t ∧ bank.OverdueBy now graceMinutes t

/-- A file was ingested between local midnight and now. -/
def ArrivedToday : Prop :=
  ∃ file ∈ files, file.isSettlementOf bank.code = true ∧
    bank.zone.toUtc ⟨bank.today now, 0⟩ ≤ file.ingestedAt ∧ file.ingestedAt ≤ now

/-- A file was ingested from the due moment on, or from midnight in UTC on. -/
def ArrivedSinceBound : Prop :=
  ∃ t, bank.expectedSettlementTime = some t ∧ ∃ file ∈ files,
    file.isSettlementOf bank.code = true ∧
      min (bank.dueAt now t) (utcMidnight (bank.today now)) ≤ file.ingestedAt

end SettlingBank

section

variable {files : List ReceivedFile} {now : Instant} {graceMinutes : Nat} {bank : SettlingBank}

theorem expectedSettlementOverdue_eq_some {t : ClockTime} {day : Date} {due : Instant} :
    expectedSettlementOverdue now t bank.zone bank.calendar graceMinutes = some (day, due) ↔
      bank.OverdueBy now graceMinutes t ∧ day = bank.today now ∧ due = bank.dueAt now t := by
  unfold expectedSettlementOverdue SettlingBank.OverdueBy SettlingBank.dueAt SettlingBank.today
  dsimp only
  split
  · rename_i hbusiness
    split
    · rename_i hlate
      simp [hbusiness, hlate, eq_comm]
    · rename_i hlate
      simp [hlate]
  · rename_i hbusiness
    simp [hbusiness]

theorem receivedSince_ne_zero {code : String} {start : Instant} :
    receivedSince files code start ≠ 0 ↔
      ∃ file ∈ files, file.isSettlementOf code = true ∧ start ≤ file.ingestedAt := by
  simp [receivedSince, List.countP_eq_zero]

/-- A draft is made when the settlement is overdue and no file counts. -/
theorem absenceDraft_isSome : (absenceDraft files now graceMinutes bank).isSome = true ↔
    bank.Overdue now graceMinutes ∧ ¬ bank.ArrivedSinceBound files now := by
  unfold absenceDraft SettlingBank.Overdue SettlingBank.ArrivedSinceBound
  cases hexpected : bank.expectedSettlementTime with
  | none => simp
  | some t =>
    simp only [Option.bind_eq_bind, Option.bind_some, Option.some.injEq, exists_eq_left']
    cases hoverdue : expectedSettlementOverdue now t bank.zone bank.calendar graceMinutes with
    | none =>
      have hnot : ¬ bank.OverdueBy now graceMinutes t := by
        intro h
        rw [expectedSettlementOverdue_eq_some.mpr ⟨h, rfl, rfl⟩] at hoverdue
        cases hoverdue
      simp [hnot]
    | some found =>
      obtain ⟨day, due⟩ := found
      obtain ⟨h, rfl, rfl⟩ := expectedSettlementOverdue_eq_some.mp hoverdue
      rw [← receivedSince_ne_zero]
      by_cases hreceived : receivedSince files bank.code
          (min (bank.dueAt now t) (utcMidnight (bank.today now))) = 0
      · simp [h, hreceived]
      · simp [hreceived]

/-- A draft names its bank. -/
theorem absenceDraft_names {draft : AlertDraft}
    (h : absenceDraft files now graceMinutes bank = some draft) :
    draft.alertType = "ABSENCE" ∧ draft.bankCode = some bank.code := by
  obtain ⟨t, -, h⟩ := Option.bind_eq_some_iff.mp h
  obtain ⟨⟨day, due⟩, -, h⟩ := Option.bind_eq_some_iff.mp h
  dsimp only at h
  split at h
  · cases h
  · obtain rfl := Option.some.inj h
    exact ⟨rfl, rfl⟩

/-- The bank has an alert among the drafts when its own draft is made. -/
theorem exists_absenceDraft {banks : List SettlingBank} (hcodes : (banks.map (·.code)).Nodup)
    (hbank : bank ∈ banks) :
    (∃ draft ∈ absenceDrafts files now graceMinutes banks,
      draft.alertType = "ABSENCE" ∧ draft.bankCode = some bank.code) ↔
    (absenceDraft files now graceMinutes bank).isSome = true := by
  constructor
  · rintro ⟨draft, hmem, -, hcode⟩
    obtain ⟨other, hother, hdraft⟩ := List.mem_filterMap.mp hmem
    have hname := (absenceDraft_names hdraft).2
    have hsame : other.code = bank.code := Option.some.inj (hname.symm.trans hcode)
    rw [← List.inj_on_of_nodup_map hcodes hother hbank hsame, hdraft]
    rfl
  · intro h
    obtain ⟨draft, hdraft⟩ := Option.isSome_iff_exists.mp h
    exact ⟨draft, List.mem_filterMap.mpr ⟨bank, hbank, hdraft⟩, absenceDraft_names hdraft⟩

/-- **An alert for a day without a file**: right exactly when the files that count and the files of
the local day are both none or both some, where the settlement is overdue. -/
theorem absenceDrafts_iff {banks : List SettlingBank} (hcodes : (banks.map (·.code)).Nodup)
    (hbank : bank ∈ banks) (files : List ReceivedFile) (now : Instant) (graceMinutes : Nat) :
    ((∃ draft ∈ absenceDrafts files now graceMinutes banks,
        draft.alertType = "ABSENCE" ∧ draft.bankCode = some bank.code) ↔
      bank.Overdue now graceMinutes ∧ ¬ bank.ArrivedToday files now) ↔
    (bank.Overdue now graceMinutes →
      (bank.ArrivedSinceBound files now ↔ bank.ArrivedToday files now)) := by
  rw [exists_absenceDraft hcodes hbank, absenceDraft_isSome]
  tauto

end

/-! ## Mumbai -/

/-- A zone with one offset all the year round, in minutes. -/
def fixedZone (offsetMinutes : Int) : Zone where
  toLocal i :=
    ⟨(i + offsetMinutes * minuteMicros) / dayMicros + 719163,
      (i + offsetMinutes * minuteMicros) % dayMicros⟩
  toUtc t := utcMidnight t.date + t.time - offsetMinutes * minuteMicros

/-- A bank in Mumbai that settles by 18:00. -/
def mumbaiBank : SettlingBank where
  code := "HDFC"
  expectedSettlementTime := some ⟨18, 0, by decide, by decide⟩
  zone := fixedZone 330
  calendar := ⟨"in", []⟩

/-- A file that arrives on 16 March 2026, at a time of the day in Mumbai. -/
def mumbaiFile (hour minute : Nat) : ReceivedFile :=
  ⟨"HDFC", some .external, "COMPLETED",
    mumbaiBank.zone.toUtc ⟨739691, (hour * 60 + minute) * minuteMicros⟩⟩

/-- Five minutes past eight in the evening of that day. -/
def mumbaiEvening : Instant := mumbaiBank.zone.toUtc ⟨739691, (20 * 60 + 5) * minuteMicros⟩

/-- A file of the afternoon counts. -/
theorem absenceDrafts_iff_mumbai :
    (∃ draft ∈ absenceDrafts [mumbaiFile 18 30] mumbaiEvening 120 [mumbaiBank],
        draft.alertType = "ABSENCE" ∧ draft.bankCode = some mumbaiBank.code) ↔
      mumbaiBank.Overdue mumbaiEvening 120 ∧
        ¬ mumbaiBank.ArrivedToday [mumbaiFile 18 30] mumbaiEvening := by
  have hbank : mumbaiBank ∈ [mumbaiBank] := List.mem_singleton_self _
  refine (absenceDrafts_iff (by decide) hbank [mumbaiFile 18 30] mumbaiEvening 120).mpr
    fun _ => ?_
  refine iff_of_true ⟨_, rfl, _, List.mem_singleton_self _, ?_⟩
    ⟨_, List.mem_singleton_self _, ?_⟩
  · decide
  · decide

/-- A file of two in the morning does not: an alert is drafted on a day on which a file arrived. -/
theorem mumbaiMorning_alerted :
    ¬ ((∃ draft ∈ absenceDrafts [mumbaiFile 2 0] mumbaiEvening 120 [mumbaiBank],
        draft.alertType = "ABSENCE" ∧ draft.bankCode = some mumbaiBank.code) ↔
      mumbaiBank.Overdue mumbaiEvening 120 ∧
        ¬ mumbaiBank.ArrivedToday [mumbaiFile 2 0] mumbaiEvening) := by
  have harrived : mumbaiBank.ArrivedToday [mumbaiFile 2 0] mumbaiEvening :=
    ⟨_, List.mem_singleton_self _, by decide⟩
  have hdraft : ∃ draft ∈ absenceDrafts [mumbaiFile 2 0] mumbaiEvening 120 [mumbaiBank],
      draft.alertType = "ABSENCE" ∧ draft.bankCode = some mumbaiBank.code := by
    rw [exists_absenceDraft (by decide) (List.mem_singleton_self _)]
    decide
  exact fun h => (h.mp hdraft).2 harrived

end Recon
