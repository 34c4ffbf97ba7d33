import ReconEngine.Matching.Rules
import Mathlib.Order.Interval.Finset.Defs
import Mathlib.Data.Int.ConditionallyCompleteOrder
import Mathlib.Data.Int.Interval
import Mathlib.Order.Bounds.Basic
import Mathlib.Order.Directed
import Mathlib.Data.Fintype.Order

/-!
# Business-day arithmetic

`business_days_between` counts the business days on its way from one date to another, and
`add_business_days` walks until it has passed as many as it was given.

**The law** (`businessDays_coherent`): the count is the number of business days after the first date
up to the second, so it adds up over an interval, and the walk ends at the first date that is as many
business days away. That date exists because the holidays are finitely many. It is returned unless it
lies beyond the last date there is, where the walk overflows.

**What it does not establish.** Which days are holidays: a calendar is given with its finitely many
dates. Nothing is said of how long a walk takes.
-/

set_option autoImplicit false

namespace Recon

namespace BusinessCalendar

/-- `date.max`. -/
def maxDate : Date := 3652059

/-- The loop of `add_business_days`, with `left` days to go to the last date. -/
def addLoop (calendar : BusinessCalendar) (day : Date) (remaining : Nat) :
    Nat → Except ReconError Date
  | 0 => if remaining = 0 then .ok day else .error (.arithmetic "OverflowError")
  | left + 1 =>
    if remaining = 0 then .ok day
    else calendar.addLoop (day + 1)
      (if calendar.isBusinessDay (day + 1) then remaining - 1 else remaining) left

def addBusinessDays (calendar : BusinessCalendar) (start : Date) (days : Int) :
    Except ReconError Date :=
  if days < 0 then .error (.valueError "days must be non-negative")
  else calendar.addLoop start days.toNat (maxDate - start).toNat

variable (calendar : BusinessCalendar)

/-! ## One more day -/

/-- The business days among the next `k` days, and one more day after them. -/
theorem countDays_succ (day : Int) (k : Nat) : calendar.countDays day 0 (k + 1) =
    calendar.countDays day 0 k + if calendar.isBusinessDay (day + k + 1) then 1 else 0 := by
  simp only [countDays_eq, zero_add, List.range_succ, List.countP_append, List.countP_singleton]

/-- The same with the first of the days taken off. -/
theorem countDays_succ_left (day : Int) (k : Nat) : calendar.countDays day 0 (k + 1) =
    calendar.countDays (day + 1) 0 k + if calendar.isBusinessDay (day + 1) then 1 else 0 := by
  rw [countDays, countDays_eq, countDays_eq calendar k (day + 1) 0]
  split <;> omega

/-- Forwards, the difference is the count of the loop. -/
theorem businessDaysBetween_add (day : Int) (k : Nat) :
    calendar.businessDaysBetween day (day + k) = calendar.countDays day 0 k := by
  have hle : ¬ day + (k : Int) < day := by simp
  have hdays : (day + k - day).toNat = k := by simp
  rw [businessDaysBetween, if_neg hle, hdays]

/-- Going on from a later day. -/
theorem countDays_add (day : Int) (k l : Nat) : calendar.countDays day 0 (k + l) =
    calendar.countDays day 0 k + calendar.countDays (day + k) 0 l := by
  induction l with
  | zero => rfl
  | succ l ih =>
    have hday : day + ((k + l : Nat) : Int) + 1 = day + k + l + 1 := by push_cast; ring
    rw [← Nat.add_assoc, countDays_succ, ih, countDays_succ calendar (day + k), hday, Nat.add_assoc]

/-- The loop counts the business days after the first date up to the second. -/
theorem card_businessDays (day : Int) (k : Nat) :
    ((Finset.Ioc day (day + k)).filter (calendar.isBusinessDay ·)).card =
      calendar.countDays day 0 k := by
  induction k with
  | zero => simp [countDays]
  | succ k ih =>
    have hsplit : Finset.Ioc day (day + (k + 1 : Nat)) =
        insert (day + k + 1) (Finset.Ioc day (day + k)) := by
      ext d
      simp only [Finset.mem_Ioc, Finset.mem_insert, Nat.cast_add, Nat.cast_one]
      omega
    have hfresh : day + k + 1 ∉ (Finset.Ioc day (day + k)).filter (calendar.isBusinessDay ·) := by
      simp
    rw [hsplit, Finset.filter_insert, countDays_succ, ← ih]
    split
    · exact Finset.card_insert_of_notMem hfresh
    · rfl

/-! ## The walk arrives -/

/-- After any number of days there is a business day: a Monday beyond all holidays. -/
theorem exists_businessDay (day : Int) (k : Nat) :
    ∃ k', k ≤ k' ∧ calendar.isBusinessDay (day + k' + 1) = true := by
  obtain ⟨bound, hbound⟩ : ∃ bound : Int, ∀ h ∈ calendar.holidays, h ≤ bound := by
    obtain ⟨bound, hbound⟩ := calendar.holidays.toFinset.exists_le
    exact ⟨bound, fun h hmem => hbound h (List.mem_toFinset.mpr hmem)⟩
  obtain ⟨monday, hmonday, hlate, hafter⟩ : ∃ monday : Int, monday % 7 = 1 ∧ bound < monday ∧
      day + k + 1 ≤ monday :=
    ⟨7 * (bound.natAbs + (day + k + 1).natAbs) + 1, by omega, by omega, by omega⟩
  have hday : day + (monday - day - 1).toNat + 1 = monday := by omega
  have hweekday : weekday monday = 0 := by
    rw [weekday]
    omega
  have hfree : monday ∉ calendar.holidays := fun hmem => absurd (hbound monday hmem) (not_le.mpr hlate)
  refine ⟨(monday - day - 1).toNat, by omega, ?_⟩
  rw [hday, isBusinessDay, hweekday]
  simpa using hfree

/-- The count takes every value. -/
theorem exists_countDays_eq (day : Int) (n : Nat) : ∃ k, calendar.countDays day 0 k = n := by
  induction n with
  | zero => exact ⟨0, rfl⟩
  | succ n ih =>
    obtain ⟨k, hk⟩ := ih
    -- the next business day after the first `k` days
    have hnext := calendar.exists_businessDay day k
    obtain ⟨hlate, hbusiness⟩ := Nat.find_spec hnext
    have hidle : ∀ l, k + l ≤ Nat.find hnext → calendar.countDays day 0 (k + l) = n := by
      intro l
      induction l with
      | zero => exact fun _ => hk
      | succ l ihl =>
        intro hle
        have hnot : calendar.isBusinessDay (day + (k + l : Nat) + 1) = false := by
          have := Nat.find_min hnext (m := k + l) (by omega)
          simpa using this
        rw [← Nat.add_assoc, countDays_succ, ihl (by omega), hnot]
        simp
    obtain ⟨l, hl⟩ := Nat.exists_eq_add_of_le hlate
    refine ⟨Nat.find hnext + 1, ?_⟩
    rw [countDays_succ, hbusiness, if_pos rfl, hl, hidle l hl.ge]

/-- The walk ends after the least number of days that holds as many business days, if there are so
many days left. -/
theorem addLoop_eq (left : Nat) : ∀ {day : Int} {remaining k : Nat},
    calendar.countDays day 0 k = remaining →
    (∀ j < k, calendar.countDays day 0 j < remaining) →
    calendar.addLoop day remaining left =
      if k ≤ left then .ok (day + k) else .error (.arithmetic "OverflowError") := by
  induction left with
  | zero =>
    intro day remaining k hk hleast
    cases k with
    | zero =>
      obtain rfl : 0 = remaining := hk
      simp [addLoop]
    | succ k =>
      have hpos : remaining ≠ 0 := (Nat.lt_of_le_of_lt (Nat.zero_le _) (hleast 0 (by omega))).ne'
      simp [addLoop, hpos]
  | succ left ih =>
    intro day remaining k hk hleast
    cases k with
    | zero =>
      obtain rfl : 0 = remaining := hk
      simp [addLoop]
    | succ k =>
      have hpos : remaining ≠ 0 := (Nat.lt_of_le_of_lt (Nat.zero_le _) (hleast 0 (by omega))).ne'
      rw [countDays_succ_left] at hk
      have hrest := @ih (day + 1)
        (if calendar.isBusinessDay (day + 1) then remaining - 1 else remaining) k
        (by split at hk <;> simp_all; omega)
        (by
          intro j hj
          have hless := hleast (j + 1) (by omega)
          rw [countDays_succ_left] at hless
          split at hless <;> simp_all; omega)
      have hday : day + 1 + (k : Int) = day + (k + 1 : Nat) := by push_cast; ring
      rw [addLoop, if_neg hpos, hrest, hday]
      simp only [Nat.add_le_add_iff_right]

/-! ## The arithmetic -/

/-- The least date that is so many business days away, which the walk returns if it is a date. -/
theorem addBusinessDays_least {start : Date} (hstart : start ≤ maxDate) (n : Nat) :
    ∃ d, IsLeast {d | start ≤ d ∧ calendar.businessDaysBetween start d = n} d ∧
      calendar.addBusinessDays start n =
        if d ≤ maxDate then .ok d else .error (.arithmetic "OverflowError") := by
  have hreach := calendar.exists_countDays_eq start n
  have hfound := Nat.find_spec hreach
  have hfirst : ∀ j < Nat.find hreach, calendar.countDays start 0 j < n := by
    intro j hj
    obtain ⟨l, hl⟩ := Nat.exists_eq_add_of_lt hj
    have hsum := calendar.countDays_add start j (l + 1)
    rw [show j + (l + 1) = Nat.find hreach by omega, hfound] at hsum
    exact lt_of_le_of_ne (by omega) (Nat.find_min hreach hj)
  refine ⟨start + (Nat.find hreach : Nat), ⟨⟨?_, ?_⟩, ?_⟩, ?_⟩
  · exact le_add_of_nonneg_right (Int.natCast_nonneg _)
  · rw [businessDaysBetween_add, hfound]
  · rintro d ⟨hd, hcount⟩
    obtain ⟨k, hk⟩ := Int.eq_ofNat_of_zero_le (sub_nonneg.mpr hd)
    obtain rfl : d = start + k := eq_add_of_sub_eq' hk
    rw [businessDaysBetween_add] at hcount
    exact add_le_add_right (Int.ofNat_le.mpr (Nat.find_min' hreach hcount)) start
  · have hdays : ¬ ((n : Nat) : Int) < 0 := by simp
    rw [addBusinessDays, if_neg hdays, Int.toNat_natCast, calendar.addLoop_eq _ hfound hfirst]
    have hleft : Nat.find hreach ≤ (maxDate - start).toNat ↔ start + Nat.find hreach ≤ maxDate := by
      rw [Int.le_toNat (sub_nonneg.mpr hstart), le_sub_iff_add_le']
    simp only [hleft]

/-- **Business-day arithmetic is coherent**, up to the last date there is. -/
theorem businessDays_coherent :
    (∀ a b, calendar.businessDaysBetween a b = calendar.businessDaysBetween b a) ∧
      (∀ a b : Date, a ≤ b → calendar.businessDaysBetween a b =
        ((Finset.Ioc a b).filter (calendar.isBusinessDay ·)).card) ∧
      (∀ a b c, a ≤ b → b ≤ c → calendar.businessDaysBetween a c =
        calendar.businessDaysBetween a b + calendar.businessDaysBetween b c) ∧
      ∀ a, a ≤ maxDate → ∀ n : Nat, ∃ d,
        IsLeast {d | a ≤ d ∧ calendar.businessDaysBetween a d = n} d ∧
        calendar.addBusinessDays a n =
          if d ≤ maxDate then .ok d else .error (.arithmetic "OverflowError") := by
  have hsum : ∀ {a b : Date}, a ≤ b → ∃ k : Nat, b = a + k := by
    intro a b hab
    obtain ⟨k, hk⟩ := Int.eq_ofNat_of_zero_le (sub_nonneg.mpr hab)
    exact ⟨k, eq_add_of_sub_eq' hk⟩
  refine ⟨calendar.businessDaysBetween_comm, ?_, ?_, fun a ha => calendar.addBusinessDays_least ha⟩
  · intro a b hab
    obtain ⟨k, rfl⟩ := hsum hab
    rw [businessDaysBetween_add, card_businessDays]
  · intro a b c hab hbc
    obtain ⟨k, rfl⟩ := hsum hab
    obtain ⟨l, rfl⟩ := hsum hbc
    have hday : a + (k : Int) + l = a + (k + l : Nat) := by push_cast; ring
    rw [businessDaysBetween_add, businessDaysBetween_add, hday, businessDaysBetween_add,
      countDays_add]

/-- From the last date there is no next one. -/
theorem addBusinessDays_lastDate :
    ¬ ∀ (calendar : BusinessCalendar) (a : Date) (n : Nat), a ≤ maxDate →
      ∃ d, calendar.addBusinessDays a n = .ok d ∧
        IsLeast {d | a ≤ d ∧ calendar.businessDaysBetween a d = n} d := by
  intro h
  obtain ⟨d, hd, -⟩ := h ⟨"in", []⟩ maxDate 1 (le_refl _)
  cases hd

end BusinessCalendar

end Recon
