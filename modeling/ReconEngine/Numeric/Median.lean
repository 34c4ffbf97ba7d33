import Mathlib.Order.Interval.Set.Defs
import Mathlib.Order.Lattice
import Mathlib.Data.List.Basic

/-!
# Medians

The middle one of some values in order or, where their number is even, what lies between the two in
the middle; how the two are joined is left open.

**The law of the majority** (`median_mem_Icc`): where more than half of the values lie in an
interval, the median does, whatever the others are.

**What it does not establish.** The mean of the two middle values is one way to join them; the law
asks of a join only that it stays between them, so a rounded mean has to be shown to do so.
-/

set_option autoImplicit false

namespace Numeric

variable {α : Type} [LinearOrder α]

/-- The median, with what lies between two values. -/
def median (between : α → α → α) (values : List α) : Option α :=
  let sorted := values.mergeSort fun a b => a ≤ b
  let middle := values.length / 2
  if values.length % 2 = 1 then sorted[middle]?
  else do
    let low ← sorted[middle - 1]?
    let high ← sorted[middle]?
    return between low high

/-! ## Values in order -/

theorem pairwise_sorted (values : List α) :
    (values.mergeSort fun a b => a ≤ b).Pairwise (· ≤ ·) := by
  have hpairwise := @List.pairwise_mergeSort α (fun a b => decide (a ≤ b))
    (fun a b c hab hbc =>
      decide_eq_true ((of_decide_eq_true hab).trans (of_decide_eq_true hbc)))
    (fun a b => by simpa using le_total a b) values
  exact hpairwise.imp of_decide_eq_true

theorem mem_of_sorted {values : List α} {i : Nat} {x : α}
    (h : (values.mergeSort fun a b => a ≤ b)[i]? = some x) : x ∈ values :=
  (List.mergeSort_perm values _).mem_iff.mp (List.mem_of_getElem? h)

/-- Where a property holds of all values up to some point, the count says how far. -/
theorem holds_iff_lt_countP {p : α → Bool} (hp : ∀ a b, a ≤ b → p b = true → p a = true) :
    ∀ {sorted : List α}, sorted.Pairwise (· ≤ ·) → ∀ {i : Nat} {x : α}, sorted[i]? = some x →
      (p x = true ↔ i < sorted.countP p) := by
  intro sorted hsorted
  induction hsorted with
  | nil =>
    intro i x hx
    cases hx
  | @cons first rest hfirst _ ih =>
    intro i x hx
    by_cases hholds : p first = true
    · rw [List.countP_cons_of_pos hholds]
      cases i with
      | zero =>
        obtain rfl := Option.some.inj hx
        exact iff_of_true hholds (Nat.succ_pos _)
      | succ i => exact (ih hx).trans Nat.succ_lt_succ_iff.symm
    · -- Nothing after it has the property either.
      have hnone : (first :: rest).countP p = 0 := by
        rw [List.countP_eq_zero]
        intro y hy
        rcases List.mem_cons.mp hy with heq | hmem
        · rw [heq]
          exact hholds
        · exact mt (hp _ _ (hfirst y hmem)) hholds
      have hx' : ¬ p x = true := List.countP_eq_zero.mp hnone x (List.mem_of_getElem? hx)
      exact iff_of_false hx' (by omega)

section

variable {sorted : List α} {i : Nat} {x low high : α}

/-- More values than come before this one are no more than the bound. -/
theorem le_of_lt_countP (hsorted : sorted.Pairwise (· ≤ ·)) (hx : sorted[i]? = some x)
    (h : i < sorted.countP (· ≤ high)) : x ≤ high := by
  have hholds := (holds_iff_lt_countP (p := (· ≤ high))
    (fun a b hab hb => decide_eq_true (hab.trans (of_decide_eq_true hb))) hsorted hx).mpr h
  exact of_decide_eq_true hholds

/-- More values than come after this one are no less than the bound. -/
theorem ge_of_lt_countP (hsorted : sorted.Pairwise (· ≤ ·)) (hx : sorted[i]? = some x)
    (h : sorted.length < i + 1 + sorted.countP (low ≤ ·)) : low ≤ x := by
  by_contra hlt
  have hbelow := (holds_iff_lt_countP (p := (· < low))
    (fun a b hab hb => decide_eq_true (hab.trans_lt (of_decide_eq_true hb))) hsorted hx).mp
      (decide_eq_true (not_le.mp hlt))
  have hcount := List.length_eq_countP_add_countP (fun y => decide (low ≤ y)) (l := sorted)
  have hrest : sorted.countP (fun y => decide ¬ decide (low ≤ y) = true) =
      sorted.countP (· < low) := by
    apply List.countP_congr
    intro y _
    simp
  omega

end

/-! ## The median -/

section

variable {between : α → α → α} {values : List α} {m low high : α}

/-- There is a median unless there are no values. -/
theorem median_isSome (between : α → α → α) (h : values ≠ []) : (median between values).isSome = true := by
  have hpos := List.length_pos_iff.mpr h
  have hlength : (values.mergeSort fun a b => a ≤ b).length = values.length :=
    List.length_mergeSort values
  have hmiddle : values.length / 2 < (values.mergeSort fun a b => a ≤ b).length := by omega
  have hbefore : values.length / 2 - 1 < (values.mergeSort fun a b => a ≤ b).length := by omega
  unfold median
  dsimp only
  rw [List.getElem?_eq_getElem hmiddle, List.getElem?_eq_getElem hbefore]
  split <;> rfl

/-- The median comes from one or two places in the middle. -/
theorem median_eq_some (h : median between values = some m) :
    (∃ i, values.length = 2 * i + 1 ∧
      (values.mergeSort fun a b => a ≤ b)[i]? = some m) ∨
    ∃ i a b, values.length = 2 * (i + 1) ∧ (values.mergeSort fun a b => a ≤ b)[i]? = some a ∧
      (values.mergeSort fun a b => a ≤ b)[i + 1]? = some b ∧ m = between a b := by
  unfold median at h
  dsimp only at h
  split at h
  · exact .inl ⟨values.length / 2, by omega, h⟩
  · obtain ⟨a, ha, h⟩ := Option.bind_eq_some_iff.mp h
    obtain ⟨b, hb, h⟩ := Option.bind_eq_some_iff.mp h
    have hbound : values.length / 2 < values.length := by
      have hlt := (List.getElem?_eq_some_iff.mp hb).1
      rwa [List.length_mergeSort] at hlt
    have hmiddle : values.length / 2 - 1 + 1 = values.length / 2 := by omega
    exact .inr ⟨values.length / 2 - 1, a, b, by omega, ha, hmiddle ▸ hb,
      (Option.some.inj h).symm⟩

/-- The median is one of the values, or lies between two of them. -/
theorem median_mem (h : median between values = some m) :
    m ∈ values ∨ ∃ a ∈ values, ∃ b ∈ values, m = between a b := by
  rcases median_eq_some h with hodd | heven
  · obtain ⟨i, -, hm⟩ := hodd
    exact .inl (mem_of_sorted hm)
  · obtain ⟨i, a, b, -, ha, hb, hm⟩ := heven
    exact .inr ⟨a, mem_of_sorted ha, b, mem_of_sorted hb, hm⟩

/-- How values are joined matters only for the values there are. -/
theorem median_congr {between' : α → α → α}
    (h : ∀ a ∈ values, ∀ b ∈ values, between a b = between' a b) :
    median between values = median between' values := by
  unfold median
  dsimp only
  split
  · rfl
  · cases ha : (values.mergeSort fun a b => a ≤ b)[values.length / 2 - 1]? with
    | none => rfl
    | some a =>
      cases hb : (values.mergeSort fun a b => a ≤ b)[values.length / 2]? with
      | none => rfl
      | some b =>
        show some (between a b) = some (between' a b)
        rw [h a (mem_of_sorted ha) b (mem_of_sorted hb)]

/-- **The law of the majority.** Where more than half of the values lie in an interval, so does the
median, if what lies between two values of the interval does. -/
theorem median_mem_Icc (h : median between values = some m)
    (hmajority : values.length < 2 * values.countP fun v => low ≤ v ∧ v ≤ high)
    (hbetween : ∀ a ∈ Set.Icc low high, ∀ b ∈ Set.Icc low high, between a b ∈ Set.Icc low high) :
    m ∈ Set.Icc low high := by
  have hsorted := pairwise_sorted values
  have hperm := List.mergeSort_perm values fun a b => decide (a ≤ b)
  have hlength : (values.mergeSort fun a b => a ≤ b).length = values.length := hperm.length_eq
  have hlow : values.countP (fun v => low ≤ v ∧ v ≤ high) ≤
      (values.mergeSort fun a b => a ≤ b).countP (low ≤ ·) := by
    rw [hperm.countP_eq]
    apply List.countP_mono_left
    intro v _ hv
    exact decide_eq_true (of_decide_eq_true hv).1
  have hhigh : values.countP (fun v => low ≤ v ∧ v ≤ high) ≤
      (values.mergeSort fun a b => a ≤ b).countP (· ≤ high) := by
    rw [hperm.countP_eq]
    apply List.countP_mono_left
    intro v _ hv
    exact decide_eq_true (of_decide_eq_true hv).2
  have hmiddle : ∀ {i : Nat} {x : α}, (values.mergeSort fun a b => a ≤ b)[i]? = some x →
      values.length ≤ 2 * i + 2 → 2 * i ≤ values.length → x ∈ Set.Icc low high := by
    intro i x hx hafter hbefore
    constructor
    · exact ge_of_lt_countP hsorted hx (by omega)
    · exact le_of_lt_countP hsorted hx (by omega)
  rcases median_eq_some h with hodd | heven
  · obtain ⟨i, hn, hm⟩ := hodd
    exact hmiddle hm (by omega) (by omega)
  · obtain ⟨i, a, b, hn, ha, hb, rfl⟩ := heven
    exact hbetween a (hmiddle ha (by omega) (by omega)) b (hmiddle hb (by omega) (by omega))

end

end Numeric
