import ReconEngine.Model.Tables
import Mathlib.Algebra.Order.Field.Rat
import Mathlib.Algebra.BigOperators.Group.List.Basic
import Mathlib.Data.Finset.Card
import Mathlib.Data.List.Pairwise
import Mathlib.Tactic.FieldSimp
import Mathlib.Tactic.Linarith
import Mathlib.Tactic.Ring

/-!
# Rolling statistics

Welford's algorithm: a count, a mean and a sum of squared deviations, brought up to date one amount
at a time. `Summarises` says what the three numbers are: the count, the mean and the squared
deviations of the amounts seen, in exact arithmetic.

**The law** (`foldObservations_spec`): after any amounts the count, the mean and the squares are
those of the amounts, whatever their order; and where the amounts come in the order of their days,
the days are counted right.

**What it does not establish.** Rounding: the stored mean and sum are decimals with finitely many
places, and what they lose over a long history is not bounded here.
-/

set_option autoImplicit false

namespace Recon

/-- `first_observation`. -/
def firstObservation (amountMinor : Int) (day : Date) : RollingStats :=
  ⟨1, amountMinor, 0, 1, day⟩

/-- The statistics after one more amount; a day that is not later counts as the same day. -/
def observe (stats : RollingStats) (amountMinor : Int) (day : Date) : RollingStats :=
  let count := stats.count + 1
  let delta := (amountMinor : Rat) - stats.mean
  let mean := stats.mean + delta / count
  let m2 := stats.m2 + delta * ((amountMinor : Rat) - mean)
  let newDay := decide (stats.lastActiveDate < day)
  { count, mean, m2
    activeDays := stats.activeDays + if newDay then 1 else 0
    lastActiveDate := if newDay then day else stats.lastActiveDate }

/-- The amounts of some transactions, folded into what is known of their key. -/
def observeAll (current : Option RollingStats) (txns : List NormalisedTransaction) :
    Option RollingStats :=
  txns.foldl (fun current t => some (match current with
    | some stats => observe stats t.amountMinor t.txnDate
    | none => firstObservation t.amountMinor t.txnDate)) current

/-! ## What the numbers are -/

/-- The sum of the amounts. -/
def total (amounts : List Int) : Rat := (amounts.map fun a : Int => (a : Rat)).sum

/-- The sum of their squared distances from `c`. -/
def squaresAbout (c : Rat) (amounts : List Int) : Rat :=
  (amounts.map fun a : Int => ((a : Rat) - c) ^ 2).sum

/-- The statistics are those of the amounts; there are none of no amounts. -/
def Summarises : Option RollingStats → List Int → Prop
  | none, amounts => amounts = []
  | some stats, amounts => 0 < stats.count ∧ stats.count = amounts.length ∧
      stats.mean * stats.count = total amounts ∧ stats.m2 = squaresAbout stats.mean amounts

theorem total_append (xs ys : List Int) : total (xs ++ ys) = total xs + total ys := by
  simp [total]

theorem squaresAbout_append (c : Rat) (xs ys : List Int) :
    squaresAbout c (xs ++ ys) = squaresAbout c xs + squaresAbout c ys := by
  simp [squaresAbout]

/-- Moving the centre. -/
theorem squaresAbout_shift (c e : Rat) (amounts : List Int) :
    squaresAbout (c + e) amounts =
      squaresAbout c amounts - 2 * e * (total amounts - amounts.length * c) +
        amounts.length * e ^ 2 := by
  induction amounts with
  | nil => simp [squaresAbout, total]
  | cons a amounts ih =>
    simp only [squaresAbout, total, List.map_cons, List.sum_cons, List.length_cons] at ih ⊢
    rw [ih]
    push_cast
    ring

theorem firstObservation_summarises (amountMinor : Int) (day : Date) :
    Summarises (some (firstObservation amountMinor day)) [amountMinor] := by
  simp [Summarises, firstObservation, total, squaresAbout]

theorem observe_summarises {stats : RollingStats} {amounts : List Int}
    (h : Summarises (some stats) amounts) (amountMinor : Int) (day : Date) :
    Summarises (some (observe stats amountMinor day)) (amounts ++ [amountMinor]) := by
  obtain ⟨hpos, hcount, hmean, hm2⟩ := h
  have hne : (stats.count : Rat) + 1 ≠ 0 := by
    have := Nat.cast_nonneg (α := Rat) stats.count
    linarith
  refine ⟨Nat.succ_pos _, ?_, ?_, ?_⟩
  · simp [observe, hcount]
  · rw [total_append, ← hmean]
    simp only [observe, total, List.map_cons, List.map_nil, List.sum_cons, List.sum_nil]
    push_cast
    field_simp
    ring
  · have hlen : (amounts.length : Rat) = stats.count := by rw [hcount]
    simp only [observe]
    rw [squaresAbout_append, squaresAbout_shift, ← hmean, ← hm2, hlen]
    simp only [squaresAbout, List.map_cons, List.map_nil, List.sum_cons, List.sum_nil]
    push_cast
    field_simp
    ring

/-- Folding transactions in adds their amounts to those summarised. -/
theorem observeAll_summarises (txns : List NormalisedTransaction) :
    ∀ {current : Option RollingStats} {amounts : List Int}, Summarises current amounts →
      Summarises (observeAll current txns) (amounts ++ txns.map (·.amountMinor)) := by
  induction txns with
  | nil =>
    intro current amounts h
    rw [List.map_nil, List.append_nil]
    exact h
  | cons t txns ih =>
    intro current amounts h
    rw [List.map_cons, List.append_cons]
    refine ih ?_
    cases current with
    | none =>
      obtain rfl : amounts = [] := h
      exact firstObservation_summarises _ _
    | some stats => exact observe_summarises h _ _

/-- The order of the amounts is of no account. -/
theorem Summarises.perm {stats : Option RollingStats} {xs ys : List Int} (h : Summarises stats xs)
    (hperm : xs.Perm ys) : Summarises stats ys := by
  cases stats with
  | none =>
    obtain rfl : xs = [] := h
    exact List.nil_perm.mp hperm
  | some stats =>
    obtain ⟨hpos, hcount, hmean, hm2⟩ := h
    refine ⟨hpos, hcount.trans hperm.length_eq, hmean.trans ?_, hm2.trans ?_⟩
    · exact (hperm.map _).sum_eq
    · exact (hperm.map _).sum_eq

/-! ## A history of observations -/

/-- `first_observation` and then `observe`, over amounts with their days. -/
def foldObservations : List (Int × Date) → Option RollingStats
  | [] => none
  | o :: observations =>
    some (observations.foldl (fun stats o => observe stats o.1 o.2) (firstObservation o.1 o.2))

/-- The days seen are those of the observations. -/
structure CountsDays (stats : RollingStats) (days : List Date) : Prop where
  activeDays : stats.activeDays = days.toFinset.card
  mem : stats.lastActiveDate ∈ days
  le : ∀ day ∈ days, day ≤ stats.lastActiveDate

theorem firstObservation_countsDays (amountMinor : Int) (day : Date) :
    CountsDays (firstObservation amountMinor day) [day] := by
  constructor <;> simp [firstObservation]

/-- A day that does not go backwards is new exactly when it is later than the last one. -/
theorem observe_countsDays {stats : RollingStats} {days : List Date} (h : CountsDays stats days)
    {day : Date} (hday : ∀ earlier ∈ days, earlier ≤ day) (amountMinor : Int) :
    CountsDays (observe stats amountMinor day) (days ++ [day]) := by
  have hlast : stats.lastActiveDate ≤ day := hday _ h.mem
  by_cases hnew : stats.lastActiveDate < day
  · have hfresh : day ∉ days.toFinset := by
      intro hmem
      exact absurd hnew (not_lt.mpr (h.le day (List.mem_toFinset.mp hmem)))
    constructor
    · simp [observe, hnew, h.activeDays, Finset.union_comm days.toFinset, hfresh]
    · simp [observe, hnew]
    · intro earlier hmem
      have hle : earlier ≤ day := by
        rcases List.mem_append.mp hmem with hold | hsame
        · exact hday earlier hold
        · exact (List.mem_singleton.mp hsame).le
      simpa [observe, hnew] using hle
  · obtain rfl : stats.lastActiveDate = day := le_antisymm hlast (not_lt.mp hnew)
    constructor
    · simp [observe, h.activeDays, Finset.union_comm days.toFinset, h.mem]
    · simp [observe]
    · intro earlier hmem
      have hle : earlier ≤ stats.lastActiveDate := by
        rcases List.mem_append.mp hmem with hold | hsame
        · exact hday earlier hold
        · exact (List.mem_singleton.mp hsame).le
      simpa [observe] using hle

/-- Folding more observations in keeps what the numbers are. -/
theorem foldl_observe_summarises (observations : List (Int × Date)) :
    ∀ {stats : RollingStats} {amounts : List Int}, Summarises (some stats) amounts →
      Summarises (some (observations.foldl (fun stats o => observe stats o.1 o.2) stats))
        (amounts ++ observations.map (·.1)) := by
  induction observations with
  | nil =>
    intro stats amounts h
    simpa using h
  | cons o observations ih =>
    intro stats amounts h
    rw [List.foldl_cons, List.map_cons, List.append_cons]
    exact ih (observe_summarises h o.1 o.2)

/-- Folding observations whose days do not go backwards keeps the count of days. -/
theorem foldl_observe_countsDays (observations : List (Int × Date)) :
    ∀ {stats : RollingStats} {days : List Date}, CountsDays stats days →
      (days ++ observations.map (·.2)).Pairwise (· ≤ ·) →
      CountsDays (observations.foldl (fun stats o => observe stats o.1 o.2) stats)
        (days ++ observations.map (·.2)) := by
  induction observations with
  | nil =>
    intro stats days h _
    simpa using h
  | cons o observations ih =>
    intro stats days h hsorted
    rw [List.map_cons, List.append_cons] at hsorted ⊢
    have hday : ∀ earlier ∈ days, earlier ≤ o.2 := by
      intro earlier hmem
      have hboth := (List.pairwise_append.mp hsorted).1
      exact (List.pairwise_append.mp hboth).2.2 earlier hmem o.2 (List.mem_singleton_self _)
    exact ih (observe_countsDays h hday o.1) hsorted

/-- The closed forms: the numbers of a summary are functions of the amounts. -/
theorem Summarises.closed {stats : RollingStats} {amounts : List Int}
    (h : Summarises (some stats) amounts) :
    stats.count = amounts.length ∧ stats.mean = total amounts / amounts.length ∧
      stats.m2 = squaresAbout (total amounts / amounts.length) amounts := by
  obtain ⟨hpos, hcount, hmean, hm2⟩ := h
  have hne : (stats.count : Rat) ≠ 0 := Nat.cast_ne_zero.mpr (Nat.ne_of_gt hpos)
  have hexact : stats.mean = total amounts / amounts.length := by
    rw [← hmean, ← hcount, mul_div_assoc, div_self hne, mul_one]
  exact ⟨hcount, hexact, hexact ▸ hm2⟩

/-- **Welford's fold is exact and order-free.** -/
theorem foldObservations_spec {observations : List (Int × Date)} (h : observations ≠ []) :
    ∃ stats, foldObservations observations = some stats ∧
      stats.count = observations.length ∧
      stats.mean = total (observations.map (·.1)) / observations.length ∧
      stats.m2 = squaresAbout (total (observations.map (·.1)) / observations.length)
        (observations.map (·.1)) ∧
      (∀ others : List (Int × Date), (others.map (·.1)).Perm (observations.map (·.1)) →
        ∃ stats', foldObservations others = some stats' ∧
          stats'.count = stats.count ∧ stats'.mean = stats.mean ∧ stats'.m2 = stats.m2) ∧
      ((observations.map (·.2)).Pairwise (· ≤ ·) →
        stats.activeDays = (observations.map (·.2)).toFinset.card ∧
          (observations.map (·.2)).getLast? = some stats.lastActiveDate) := by
  have hsummary : ∀ observations : List (Int × Date), observations ≠ [] → ∃ stats,
      foldObservations observations = some stats ∧
        Summarises (some stats) (observations.map (·.1)) := by
    intro observations hne
    obtain ⟨o, rest, rfl⟩ := List.exists_cons_of_ne_nil hne
    exact ⟨_, rfl, foldl_observe_summarises rest (firstObservation_summarises o.1 o.2)⟩
  obtain ⟨stats, hfold, hstats⟩ := hsummary observations h
  obtain ⟨hcount, hmean, hm2⟩ := hstats.closed
  rw [List.length_map] at hcount hmean hm2
  refine ⟨stats, hfold, hcount, hmean, hm2, ?_, ?_⟩
  · intro others hperm
    have hothers : others ≠ [] := by
      have hlength := hperm.length_eq
      rw [List.length_map, List.length_map] at hlength
      exact List.ne_nil_of_length_pos (hlength ▸ List.length_pos_of_ne_nil h)
    obtain ⟨stats', hfold', hstats'⟩ := hsummary others hothers
    obtain ⟨hcount', hmean', hm2'⟩ := (hstats'.perm hperm).closed
    rw [List.length_map] at hcount' hmean' hm2'
    exact ⟨stats', hfold', hcount'.trans hcount.symm, hmean'.trans hmean.symm, hm2'.trans hm2.symm⟩
  · intro hsorted
    obtain ⟨o, rest, rfl⟩ := List.exists_cons_of_ne_nil h
    obtain rfl : _ = stats := Option.some.inj hfold
    have hdays := foldl_observe_countsDays rest (firstObservation_countsDays o.1 o.2) hsorted
    refine ⟨hdays.activeDays, ?_⟩
    have hne : (o :: rest).map (·.2) ≠ [] := by simp
    have hge : ((o :: rest).map (·.2)).getLast hne ≤ _ := hdays.le _ (List.getLast_mem hne)
    have hle := hsorted.rel_getLast hdays.mem
    rw [List.getLast?_eq_getLast_of_ne_nil hne]
    exact congrArg some (le_antisymm hge hle)

/-- Three amounts over two days, the statistics of 2, 4 and 6. -/
theorem foldObservations_spec_threeAmounts :
    ∃ stats, foldObservations [(2, 10), (4, 10), (6, 12)] = some stats ∧ stats.count = 3 ∧
      stats.activeDays = 2 ∧
      stats.mean = total [2, 4, 6] / 3 ∧ stats.m2 = squaresAbout (total [2, 4, 6] / 3) [2, 4, 6] := by
  have hne : ([(2, 10), (4, 10), (6, 12)] : List (Int × Date)) ≠ [] := by simp
  obtain ⟨stats, hfold, hcount, hmean, hm2, -, hdays⟩ := foldObservations_spec hne
  exact ⟨stats, hfold, hcount, (hdays (by decide)).1.trans (by decide), hmean, hm2⟩

end Recon
