import ReconEngine.Model.Tables
import Mathlib.Data.List.Sort
import Mathlib.Tactic.Linarith

/-!
# The densest window

`peak_window` scans the timestamps of a counterparty in order and keeps those that one window can
hold, closed at its start and open at its end.

**The law** (`peakWindow_spec`): what it finds is the most that any window holds, and the earliest
timestamp at which such a window starts. The invariant is the law itself for the timestamps seen so
far (`Peak`): a window that holds the newest one holds a part of those kept, and a window that does
not is no fuller than before.

**What it does not establish.** What a full window means: the threshold is the rule's. Timestamps
are taken as they are, also where several of them are the beginning of a day.
-/

set_option autoImplicit false

namespace Recon

/-! ## The scan -/

/-- What the scan holds: the timestamps from `left` to `right`, and the best window so far. -/
structure WindowScan where
  inside : List Instant
  best : Nat × Instant
deriving DecidableEq, Repr

/-- One turn of the loop: `left` moves up to the first timestamp that a window with `stamp` holds. -/
def WindowScan.step (window : Int) (scan : WindowScan) (stamp : Instant) : WindowScan :=
  let inside := (scan.inside ++ [stamp]).dropWhile fun first => window ≤ stamp - first
  { inside
    best := if scan.best.1 < inside.length then (inside.length, inside.headD stamp) else scan.best }

/-- `peak_window`: the largest number of timestamps in any window, and where it starts. -/
def peakWindow (timestamps : List Instant) (window : Int) : Option (Nat × Instant) :=
  match timestamps.insertionSort (· ≤ ·) with
  | [] => none
  | first :: rest =>
    some ((first :: rest).foldl (WindowScan.step window) ⟨[], (0, first)⟩).best

/-! ## Windows -/

/-- The timestamps in the window that starts at `start`. -/
def inWindow (window : Int) (start : Instant) (stamps : List Instant) : Nat :=
  stamps.countP fun t => start ≤ t && t < start + window

theorem inWindow_perm {stamps others : List Instant} (h : stamps.Perm others) (window : Int)
    (start : Instant) : inWindow window start stamps = inWindow window start others :=
  h.countP_eq _

/-- The best window over the timestamps seen. -/
structure Peak (window : Int) (seen : List Instant) (best : Nat × Instant) : Prop where
  most : ∀ start, inWindow window start seen ≤ best.1
  mem : seen ≠ [] → best.2 ∈ seen
  attained : inWindow window best.2 seen = best.1
  first : ∀ start ∈ seen, inWindow window start seen = best.1 → best.2 ≤ start

/-- What the scan knows of the timestamps seen. What it has dropped is too early for a window with
any later timestamp. -/
structure WindowScan.Knows (window : Int) (seen : List Instant) (scan : WindowScan) : Prop where
  sorted : scan.inside.Pairwise (· ≤ ·)
  sublist : scan.inside.Sublist seen
  kept : ∀ later, (∀ t ∈ seen, t ≤ later) →
    seen.filter (fun t => later - t < window) = scan.inside.filter fun t => later - t < window
  peak : Peak window seen scan.best

/-- Dropping from the front of a sorted list what lies too far back keeps what does not. -/
theorem dropWhile_window (window : Int) (stamp : Instant) {stamps : List Instant}
    (h : stamps.Pairwise (· ≤ ·)) :
    (stamps.dropWhile fun first => window ≤ stamp - first) =
      stamps.filter fun t => stamp - t < window := by
  induction stamps with
  | nil => rfl
  | cons t stamps ih =>
    obtain ⟨hle, hsorted⟩ := List.pairwise_cons.mp h
    by_cases ht : window ≤ stamp - t
    · simp [ht, ih hsorted]
    · have hall : ∀ t' ∈ stamps, stamp - t' < window := by
        intro t' hmem
        have := hle t' hmem
        linarith
      have hkeep : stamps.filter (fun t => stamp - t < window) = stamps :=
        List.filter_eq_self.mpr (by simpa using hall)
      simp [ht, hkeep, Int.not_le.mp ht]

section Step

variable {window : Int} {seen : List Instant} {scan : WindowScan} {stamp : Instant}

/-- After a turn the scan holds the timestamps that a window with the newest one can hold. -/
theorem WindowScan.Knows.inside_step (h : scan.Knows window seen)
    (hlast : ∀ t ∈ seen, t ≤ stamp) :
    (scan.step window stamp).inside = (seen ++ [stamp]).filter fun t => stamp - t < window := by
  have hsorted : (scan.inside ++ [stamp]).Pairwise (· ≤ ·) := by
    refine List.pairwise_append.mpr ⟨h.sorted, List.pairwise_singleton _ _, ?_⟩
    intro t ht last hmem
    rw [List.mem_singleton.mp hmem]
    exact hlast t (h.sublist.subset ht)
  simp only [WindowScan.step, dropWhile_window window stamp hsorted, List.filter_append,
    h.kept stamp hlast]

/-- A window that holds the newest timestamp holds only what the scan holds. -/
theorem inWindow_le_inside {start : Instant} (hmem : stamp < start + window) :
    inWindow window start (seen ++ [stamp]) ≤
      ((seen ++ [stamp]).filter fun t => stamp - t < window).length := by
  rw [inWindow, ← List.countP_eq_length_filter]
  refine List.countP_mono_left fun t _ ht => ?_
  simp only [Bool.and_eq_true, decide_eq_true_eq] at ht ⊢
  linarith

/-- The window that starts at the first timestamp the scan holds has all of them. -/
theorem inWindow_head (hlast : ∀ t ∈ seen, t ≤ stamp) {start : Instant}
    (hmem : stamp < start + window)
    (hleast : ∀ t ∈ seen ++ [stamp], stamp - t < window → start ≤ t) :
    inWindow window start (seen ++ [stamp]) =
      ((seen ++ [stamp]).filter fun t => stamp - t < window).length := by
  rw [inWindow, ← List.countP_eq_length_filter]
  refine List.countP_congr fun t ht => ?_
  have hle : t ≤ stamp := by
    rcases List.mem_append.mp ht with hold | hnew
    · exact hlast t hold
    · exact (List.mem_singleton.mp hnew).le
  simp only [Bool.and_eq_true, decide_eq_true_eq]
  constructor
  · intro hin
    linarith
  · intro hin
    exact ⟨hleast t ht hin, by linarith⟩

/-- One more timestamp counts in the windows that hold it. -/
theorem inWindow_snoc {start : Instant} :
    inWindow window start (seen ++ [stamp]) = inWindow window start seen +
      if start ≤ stamp ∧ stamp < start + window then 1 else 0 := by
  simp [inWindow, List.countP_append, List.countP_cons]

/-- The best window of the timestamps seen, with one more of them. -/
theorem WindowScan.Knows.peak_step (hwindow : 0 < window) (h : scan.Knows window seen)
    (hlast : ∀ t ∈ seen, t ≤ stamp) :
    Peak window (seen ++ [stamp]) (scan.step window stamp).best := by
  have hinside := h.inside_step hlast
  have hmem : stamp ∈ (scan.step window stamp).inside := by
    rw [hinside, List.mem_filter]
    exact ⟨by simp, by simpa using hwindow⟩
  have hsorted : (scan.step window stamp).inside.Pairwise (· ≤ ·) := by
    refine List.Pairwise.sublist (List.dropWhile_sublist _) (List.pairwise_append.mpr
      ⟨h.sorted, List.pairwise_singleton _ _, fun t ht last hnew => ?_⟩)
    exact List.mem_singleton.mp hnew ▸ hlast t (h.sublist.subset ht)
  have hbest : (scan.step window stamp).best =
      if scan.best.1 < (scan.step window stamp).inside.length
      then ((scan.step window stamp).inside.length, (scan.step window stamp).inside.headD stamp)
      else scan.best := rfl
  revert hinside hmem hsorted hbest
  generalize (scan.step window stamp).inside = inside
  generalize (scan.step window stamp).best = best
  intro hinside hmem hsorted hbest
  -- a window with the newest timestamp holds at most what is inside
  have hwith : ∀ start, stamp < start + window →
      inWindow window start (seen ++ [stamp]) ≤ inside.length :=
    fun start hstart => hinside ▸ inWindow_le_inside hstart
  have hwithout : ∀ start, ¬ (start ≤ stamp ∧ stamp < start + window) →
      inWindow window start (seen ++ [stamp]) = inWindow window start seen := by
    intro start hstart
    rw [inWindow_snoc, if_neg hstart, Nat.add_zero]
  by_cases hbetter : scan.best.1 < inside.length
  · rw [if_pos hbetter] at hbest
    obtain ⟨head, rest, rfl⟩ := List.exists_cons_of_ne_nil (List.ne_nil_of_mem hmem)
    subst hbest
    have hheadmem : head ∈ (seen ++ [stamp]).filter fun t => stamp - t < window :=
      hinside ▸ List.mem_cons_self
    obtain ⟨hhead, hclose⟩ := List.mem_filter.mp hheadmem
    have hclose : stamp < head + window := by
      have := of_decide_eq_true hclose
      linarith
    have hleast : ∀ t ∈ seen ++ [stamp], stamp - t < window → head ≤ t := by
      intro t ht hnear
      have htmem : t ∈ head :: rest := by
        rw [hinside, List.mem_filter]
        exact ⟨ht, decide_eq_true hnear⟩
      rcases List.mem_cons.mp htmem with rfl | hrest
      · exact le_refl _
      · exact (List.pairwise_cons.mp hsorted).1 t hrest
    constructor
    · intro start
      by_cases hstart : start ≤ stamp ∧ stamp < start + window
      · exact hwith start hstart.2
      · rw [hwithout start hstart]
        exact (h.peak.most start).trans hbetter.le
    · exact fun _ => hhead
    · rw [List.headD_cons, inWindow_head hlast hclose hleast, hinside]
    · intro start hstart hcount
      have hholds : start ≤ stamp ∧ stamp < start + window := by
        by_contra hnot
        rw [hwithout start hnot] at hcount
        have := h.peak.most start
        omega
      exact hleast start hstart (by linarith [hholds.2])
  · rw [if_neg hbetter] at hbest
    subst hbest
    have hpos : 0 < inside.length := List.length_pos_of_mem hmem
    have hseen : seen ≠ [] := by
      intro hempty
      have hnone := h.peak.attained
      rw [hempty] at hnone
      exact hbetter (hnone ▸ hpos)
    have hout : ¬ (scan.best.2 ≤ stamp ∧ stamp < scan.best.2 + window) := by
      intro hin
      have hmore := hwith scan.best.2 hin.2
      rw [inWindow_snoc, if_pos hin, h.peak.attained] at hmore
      omega
    have hbefore : scan.best.2 ≤ stamp := hlast _ (h.peak.mem hseen)
    constructor
    · intro start
      by_cases hstart : start ≤ stamp ∧ stamp < start + window
      · exact (hwith start hstart.2).trans (Nat.le_of_not_lt hbetter)
      · exact hwithout start hstart ▸ h.peak.most start
    · exact fun _ => List.mem_append_left _ (h.peak.mem hseen)
    · exact (hwithout _ hout).trans h.peak.attained
    · intro start hstart hcount
      by_cases hholds : start ≤ stamp ∧ stamp < start + window
      · by_contra hlt
        exact hout ⟨hbefore, by linarith [hholds.2, not_le.mp hlt]⟩
      · rw [hwithout start hholds] at hcount
        have hold : start ∈ seen := by
          rcases List.mem_append.mp hstart with hold | hnew
          · exact hold
          · rw [List.mem_singleton.mp hnew] at hholds
            exact absurd ⟨le_refl _, by linarith⟩ hholds
        exact h.peak.first start hold hcount

/-- What the scan knows, with one more timestamp. -/
theorem WindowScan.Knows.step (hwindow : 0 < window) (h : scan.Knows window seen)
    (hlast : ∀ t ∈ seen, t ≤ stamp) : (scan.step window stamp).Knows window (seen ++ [stamp]) where
  sorted := by
    refine List.Pairwise.sublist (List.dropWhile_sublist _) (List.pairwise_append.mpr
      ⟨h.sorted, List.pairwise_singleton _ _, fun t ht last hnew => ?_⟩)
    exact List.mem_singleton.mp hnew ▸ hlast t (h.sublist.subset ht)
  sublist := h.inside_step hlast ▸ List.filter_sublist
  kept := by
    intro later hlater
    have hstamp : stamp ≤ later := hlater stamp (by simp)
    rw [h.inside_step hlast, List.filter_filter]
    refine List.filter_congr fun t _ => ?_
    have himp : later - t < window → stamp - t < window := fun hnear => by linarith
    by_cases hnear : later - t < window
    · simp [hnear, himp hnear]
    · simp [hnear]
  peak := h.peak_step hwindow hlast

end Step

/-- The scan of sorted timestamps knows all of them. -/
theorem foldl_step_knows {window : Int} (hwindow : 0 < window) (stamps : List Instant) :
    ∀ {seen : List Instant} {scan : WindowScan}, scan.Knows window seen →
      (seen ++ stamps).Pairwise (· ≤ ·) →
      (stamps.foldl (WindowScan.step window) scan).Knows window (seen ++ stamps) := by
  induction stamps with
  | nil =>
    intro seen scan h _
    rw [List.append_nil]
    exact h
  | cons stamp stamps ih =>
    intro seen scan h hsorted
    rw [List.append_cons] at hsorted ⊢
    have hlast : ∀ t ∈ seen, t ≤ stamp := by
      intro t ht
      have hboth := (List.pairwise_append.mp hsorted).1
      exact (List.pairwise_append.mp hboth).2.2 t ht stamp (List.mem_singleton_self _)
    exact ih (h.step hwindow hlast) hsorted

/-- The best window over all timestamps is found. -/
theorem peakWindow_peak {window : Int} (hwindow : 0 < window) {timestamps : List Instant}
    {best : Nat × Instant} (h : peakWindow timestamps window = some best) :
    Peak window (timestamps.insertionSort (· ≤ ·)) best := by
  have hsorted := List.pairwise_insertionSort (α := Instant) (· ≤ ·) timestamps
  unfold peakWindow at h
  generalize timestamps.insertionSort (· ≤ ·) = ordered at hsorted h ⊢
  cases ordered with
  | nil => cases h
  | cons first rest =>
    obtain rfl := Option.some.inj h
    have hstart : (WindowScan.mk [] (0, first)).Knows window [] :=
      ⟨List.Pairwise.nil, List.Sublist.refl _, fun _ _ => rfl, fun _ => Nat.le_refl 0,
        fun hne => absurd rfl hne, rfl, fun _ hmem => absurd hmem List.not_mem_nil⟩
    exact (foldl_step_knows hwindow (first :: rest) hstart hsorted).peak

/-- **The densest window is found.** No window holds more timestamps; a window that starts at the
timestamp returned holds as many, and it is the first such timestamp. -/
theorem peakWindow_spec {window : Int} (hwindow : 0 < window) (timestamps : List Instant) :
    (peakWindow timestamps window = none ↔ timestamps = []) ∧
      ∀ count start, peakWindow timestamps window = some (count, start) →
        (∀ s, inWindow window s timestamps ≤ count) ∧
        start ∈ timestamps ∧ inWindow window start timestamps = count ∧
        ∀ s ∈ timestamps, inWindow window s timestamps = count → start ≤ s := by
  have hperm := List.perm_insertionSort (α := Instant) (· ≤ ·) timestamps
  constructor
  · constructor
    · intro h
      cases hordered : timestamps.insertionSort (· ≤ ·) with
      | nil => exact List.perm_nil.mp (hordered ▸ hperm).symm
      | cons first rest =>
        rw [peakWindow, hordered] at h
        cases h
    · rintro rfl
      rfl
  · intro count start h
    have hpeak := peakWindow_peak hwindow h
    have hne : timestamps.insertionSort (· ≤ ·) ≠ [] := by
      intro hempty
      rw [peakWindow, hempty] at h
      cases h
    have hcount := inWindow_perm hperm window
    refine ⟨fun s => hcount s ▸ hpeak.most s, hperm.subset (hpeak.mem hne),
      hcount start ▸ hpeak.attained, fun s hs hmany => ?_⟩
    exact hpeak.first s (hperm.symm.subset hs) ((hcount s).trans hmany)

/-- Three of five payments within an hour, in minutes. -/
theorem peakWindow_spec_threeInOneHour :
    (peakWindow [210, 0, 20, 200, 10] 60 = none ↔ ([210, 0, 20, 200, 10] : List Instant) = []) ∧
      ∀ count start, peakWindow [210, 0, 20, 200, 10] 60 = some (count, start) →
        (∀ s, inWindow 60 s [210, 0, 20, 200, 10] ≤ count) ∧
        start ∈ ([210, 0, 20, 200, 10] : List Instant) ∧
        inWindow 60 start [210, 0, 20, 200, 10] = count ∧
        ∀ s ∈ ([210, 0, 20, 200, 10] : List Instant),
          inWindow 60 s [210, 0, 20, 200, 10] = count → start ≤ s :=
  peakWindow_spec (by decide) [210, 0, 20, 200, 10]

end Recon
