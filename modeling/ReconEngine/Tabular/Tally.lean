import Mathlib.Algebra.BigOperators.Group.List.Basic
import Mathlib.Algebra.GroupWithZero.Nat
import Mathlib.Data.List.Dedup

/-!
# Tallies

Rows are counted or summed class by class. **The law** (`sum_classes`): where the classes are listed
once each and every row falls in one of them, the sums of the classes add up to the sum of the rows.
It holds in any commutative monoid, so that counts, amounts and whole lines of a table add up alike.

**What it does not establish.** That the classes are the right ones: a row has one class, which a
function says, and whether the list has all of them is asked of the caller.
-/

set_option autoImplicit false

namespace Tabular

variable {α β M : Type} [DecidableEq β] [AddCommMonoid M]

/-- The rows of a class. -/
def ofClass (key : α → β) (k : β) (rows : List α) : List α := rows.filter fun a => key a = k

@[simp] theorem mem_ofClass {key : α → β} {k : β} {rows : List α} {a : α} :
    a ∈ ofClass key k rows ↔ a ∈ rows ∧ key a = k := by
  simp [ofClass]

/-- One value counts in one class only. -/
theorem sum_single {ks : List β} (hks : ks.Nodup) {k : β} (hk : k ∈ ks) (m : M) :
    (ks.map fun k' => if k = k' then m else 0).sum = m := by
  induction ks with
  | nil => exact absurd hk List.not_mem_nil
  | cons k' rest ih =>
    obtain ⟨hnot, hrest⟩ := List.nodup_cons.mp hks
    rw [List.map_cons, List.sum_cons]
    by_cases h : k = k'
    · have hzero : (rest.map fun k'' => if k = k'' then m else 0).sum = 0 := by
        apply List.sum_eq_zero
        intro x hx
        obtain ⟨k'', hk'', rfl⟩ := List.mem_map.mp hx
        have hne : k ≠ k'' := by
          rintro rfl
          exact hnot (h ▸ hk'')
        exact if_neg hne
      rw [if_pos h, hzero, add_zero]
    · have hmem : k ∈ rest := (List.mem_cons.mp hk).resolve_left h
      rw [if_neg h, zero_add, ih hrest hmem]

/-- **The law of tallies.** -/
theorem sum_classes (key : α → β) (weight : α → M) {ks : List β} (hks : ks.Nodup) {rows : List α}
    (h : ∀ a ∈ rows, key a ∈ ks) :
    (ks.map fun k => ((ofClass key k rows).map weight).sum).sum = (rows.map weight).sum := by
  induction rows with
  | nil => simp [ofClass]
  | cons a rest ih =>
    have hrest := ih fun b hb => h b (List.mem_cons_of_mem a hb)
    have hstep : ∀ k, ((ofClass key k (a :: rest)).map weight).sum =
        (if key a = k then weight a else 0) + ((ofClass key k rest).map weight).sum := by
      intro k
      by_cases hk : key a = k <;> simp [ofClass, hk]
    simp only [hstep]
    rw [List.sum_map_add, sum_single hks (h a List.mem_cons_self), hrest, List.map_cons,
      List.sum_cons]

/-- The classes together have as many rows as there are. -/
theorem length_classes (key : α → β) {ks : List β} (hks : ks.Nodup) {rows : List α}
    (h : ∀ a ∈ rows, key a ∈ ks) :
    (ks.map fun k => (ofClass key k rows).length).sum = rows.length := by
  have hones : ∀ l : List α, (l.map fun _ => 1).sum = l.length := by
    intro l
    simp
  have hsum := sum_classes key (fun _ : α => 1) hks h
  simpa only [hones] using hsum

/-- The classes that rows fall in, each once. -/
def classesOf (key : α → β) (rows : List α) : List β := (rows.map key).dedup

theorem classesOf_nodup (key : α → β) (rows : List α) : (classesOf key rows).Nodup :=
  List.nodup_dedup _

theorem mem_classesOf {key : α → β} {rows : List α} {k : β} :
    k ∈ classesOf key rows ↔ ∃ a ∈ rows, key a = k := by
  simp [classesOf]

/-- The rows by class, as a grouping query gives them. -/
def grouped (key : α → β) (rows : List α) : List (β × List α) :=
  (classesOf key rows).map fun k => (k, ofClass key k rows)

/-- What is looked up among the groups is the class, which has no rows where there is no group. -/
theorem lookup_grouped (key : α → β) (rows : List α) (k : β) :
    ((grouped key rows).lookup k).getD [] = ofClass key k rows := by
  have hlookup : ∀ ks : List β, (ks.map fun k => (k, ofClass key k rows)).lookup k =
      if k ∈ ks then some (ofClass key k rows) else none := by
    intro ks
    induction ks with
    | nil => rfl
    | cons k' rest ih =>
      rw [List.map_cons, List.lookup_cons, ih]
      by_cases h : k = k'
      · simp [h]
      · simp [h, beq_false_of_ne h]
  unfold grouped
  rw [hlookup]
  by_cases h : k ∈ classesOf key rows
  · rw [if_pos h, Option.getD_some]
  · rw [if_neg h, Option.getD_none, eq_comm, ofClass, List.filter_eq_nil_iff]
    intro a ha hk
    exact h (mem_classesOf.mpr ⟨a, ha, of_decide_eq_true hk⟩)

/-- Rows of a class that satisfy a condition. -/
theorem filter_ofClass (key : α → β) (k : β) (p : α → Bool) (rows : List α) :
    (ofClass key k rows).filter p = ofClass key k (rows.filter p) := by
  unfold ofClass
  rw [List.filter_filter, List.filter_filter]
  exact List.filter_congr fun a _ => Bool.and_comm _ _

/-- The groups of a finer key that fall in one class of a coarser one have, together, what the class
has. -/
theorem sum_coarse {γ : Type} [DecidableEq γ] (key : α → β) (coarse : β → γ) (weight : α → M)
    (c : γ) (rows : List α) :
    (((grouped key rows).filter fun group => coarse group.1 = c).map fun group =>
        (group.2.map weight).sum).sum =
      ((ofClass (fun a => coarse (key a)) c rows).map weight).sum := by
  have hsame : ∀ k, coarse k = c →
      ofClass key k rows = ofClass key k (ofClass (fun a => coarse (key a)) c rows) := by
    intro k hk
    unfold ofClass
    rw [List.filter_filter]
    apply List.filter_congr
    intro a _
    by_cases ha : key a = k
    · simp [ha, hk]
    · simp [ha]
  have hkeys : ∀ a ∈ ofClass (fun a => coarse (key a)) c rows,
      key a ∈ (classesOf key rows).filter fun k => coarse k = c := by
    intro a ha
    obtain ⟨hmem, hclass⟩ := mem_ofClass.mp ha
    exact List.mem_filter.mpr ⟨mem_classesOf.mpr ⟨a, hmem, rfl⟩, decide_eq_true hclass⟩
  rw [← sum_classes key weight ((classesOf_nodup key rows).filter _) hkeys]
  unfold grouped
  rw [List.filter_map, List.map_map]
  congr 1
  apply List.map_congr_left
  intro k hk
  have hcoarse : coarse k = c := of_decide_eq_true (List.mem_filter.mp hk).2
  show ((ofClass key k rows).map weight).sum = _
  rw [hsame k hcoarse]

/-- A loop that adds up some of the rows. -/
theorem foldl_add_if (p : α → Bool) (weight : α → M) (rows : List α) (m : M) :
    rows.foldl (fun m a => if p a = true then m + weight a else m) m =
      m + ((rows.filter p).map weight).sum := by
  induction rows generalizing m with
  | nil => simp
  | cons a rest ih =>
    rw [List.foldl_cons, ih]
    by_cases h : p a = true
    · simp [h, add_assoc]
    · simp [h]

end Tabular
