import Mathlib.Data.List.Nodup

/-!
# Insertions that do nothing on a conflict

Rows are inserted one after another into a table with a unique key, and a row whose key is there
already is passed over.

**The law of first rows** (`find?_inserted`): what the table holds for a key afterwards is the first
row of that key among those it held and those offered, so that whoever inserts a key first has it for
good.

**What it does not establish.** That the first row is the right one; it is the first. What two
sessions insert at once is in order only because the later one waits (`Store.System`).
-/

set_option autoImplicit false

namespace Store

variable {ρ κ : Type} [DecidableEq κ] (key : ρ → κ)

/-- The rows that are inserted, of the rows offered. -/
def insertable : List ρ → List ρ → List ρ
  | _, [] => []
  | stored, row :: rows =>
    if key row ∈ stored.map key then insertable stored rows
    else row :: insertable (stored ++ [row]) rows

/-- The table afterwards. -/
def inserted (stored rows : List ρ) : List ρ := stored ++ insertable key stored rows

section

variable {key} {stored rows : List ρ} {row : ρ}

@[simp] theorem inserted_nil : inserted key stored [] = stored := List.append_nil stored

/-- A row whose key is there is passed over. -/
theorem inserted_cons_of_mem (h : key row ∈ stored.map key) :
    inserted key stored (row :: rows) = inserted key stored rows := by
  rw [inserted, insertable, if_pos h]
  rfl

theorem inserted_cons_of_not_mem (h : key row ∉ stored.map key) :
    inserted key stored (row :: rows) = inserted key (stored ++ [row]) rows := by
  rw [inserted, insertable, if_neg h, inserted, List.append_assoc]
  rfl

/-- Rows offered in two parts. -/
theorem inserted_append (rows' : List ρ) :
    ∀ {rows stored : List ρ},
      inserted key stored (rows ++ rows') = inserted key (inserted key stored rows) rows' := by
  intro rows
  induction rows with
  | nil =>
    intro stored
    rw [inserted_nil]
    rfl
  | cons row rows ih =>
    intro stored
    by_cases h : key row ∈ stored.map key
    · rw [List.cons_append, inserted_cons_of_mem h, inserted_cons_of_mem h, ih]
    · rw [List.cons_append, inserted_cons_of_not_mem h, inserted_cons_of_not_mem h, ih]

/-- Rows in two portions are inserted as in one. -/
theorem insertable_append (rows' : List ρ) :
    insertable key stored (rows ++ rows') =
      insertable key stored rows ++ insertable key (inserted key stored rows) rows' := by
  have h : inserted key stored (rows ++ rows') = _ := inserted_append rows'
  unfold inserted at h
  rw [List.append_assoc] at h
  exact List.append_cancel_left h

/-- What is inserted comes from what is offered, in its order. -/
theorem insertable_sublist :
    ∀ {rows stored : List ρ}, (insertable key stored rows).Sublist rows := by
  intro rows
  induction rows with
  | nil =>
    intro stored
    exact List.Sublist.slnil
  | cons row rows ih =>
    intro stored
    unfold insertable
    split
    · exact ih.cons row
    · exact ih.cons_cons row

/-- What is inserted depends only on which of the keys offered are there. -/
theorem insertable_congr :
    ∀ {rows stored stored' : List ρ},
      (∀ row ∈ rows, key row ∈ stored.map key ↔ key row ∈ stored'.map key) →
      insertable key stored rows = insertable key stored' rows := by
  intro rows
  induction rows with
  | nil =>
    intro stored stored' _
    rfl
  | cons row rows ih =>
    intro stored stored' h
    have hrest : ∀ row ∈ rows, key row ∈ stored.map key ↔ key row ∈ stored'.map key :=
      fun other hother => h other (List.mem_cons_of_mem row hother)
    by_cases hrow : key row ∈ stored.map key
    · rw [insertable, if_pos hrow, insertable, if_pos ((h row List.mem_cons_self).mp hrow)]
      exact ih hrest
    · rw [insertable, if_neg hrow, insertable, if_neg (mt (h row List.mem_cons_self).mpr hrow)]
      congr 1
      apply ih
      intro other hother
      rw [List.map_append, List.map_append, List.mem_append, List.mem_append, hrest other hother]

/-- A key that is offered and not inserted was there. -/
theorem mem_insertable_keys :
    ∀ {rows stored : List ρ}, ∀ row ∈ rows, key row ∉ stored.map key →
      key row ∈ (insertable key stored rows).map key := by
  intro rows
  induction rows with
  | nil =>
    intro stored row h
    cases h
  | cons first rows ih =>
    intro stored row hrow hnew
    by_cases hfirst : key first ∈ stored.map key
    · rw [insertable, if_pos hfirst]
      rcases List.mem_cons.mp hrow with rfl | hrest
      · exact absurd hfirst hnew
      · exact ih row hrest hnew
    · rw [insertable, if_neg hfirst, List.map_cons]
      by_cases hsame : key row = key first
      · rw [hsame]
        exact List.mem_cons_self
      · rcases List.mem_cons.mp hrow with rfl | hrest
        · exact absurd rfl hsame
        · apply List.mem_cons_of_mem
          apply ih row hrest
          rw [List.map_append, List.mem_append, not_or]
          exact ⟨hnew, fun h => hsame (List.mem_singleton.mp h)⟩

/-- Keys stay unique. -/
theorem nodup_inserted :
    ∀ {rows stored : List ρ}, (stored.map key).Nodup → ((inserted key stored rows).map key).Nodup := by
  intro rows
  induction rows with
  | nil =>
    intro stored h
    rw [inserted_nil]
    exact h
  | cons row rows ih =>
    intro stored h
    by_cases hrow : key row ∈ stored.map key
    · rw [inserted_cons_of_mem hrow]
      exact ih h
    · rw [inserted_cons_of_not_mem hrow]
      apply ih
      rw [List.map_append, List.map_singleton]
      apply List.nodup_append.mpr
      refine ⟨h, List.nodup_singleton _, ?_⟩
      intro a ha b hb heq
      rw [heq, List.mem_singleton.mp hb] at ha
      exact hrow ha

/-- Where keys are unique, a row is found by its own. -/
theorem find?_of_nodup (h : (rows.map key).Nodup) (hrow : row ∈ rows) :
    rows.find? (key · = key row) = some row := by
  have hsome : (rows.find? (key · = key row)).isSome = true :=
    List.find?_isSome.mpr ⟨row, hrow, decide_eq_true rfl⟩
  obtain ⟨found, hfound⟩ := Option.isSome_iff_exists.mp hsome
  have hsame : key found = key row := by simpa using List.find?_some hfound
  rw [hfound, List.inj_on_of_nodup_map h (List.mem_of_find?_eq_some hfound) hrow hsame]

/-- **The law of first rows.** The row of a key is the first one of that key among those that were
there and those offered. -/
theorem find?_inserted (k : κ) :
    ∀ {rows stored : List ρ}, (inserted key stored rows).find? (key · = k) =
      (stored ++ rows).find? (key · = k) := by
  intro rows
  induction rows with
  | nil =>
    intro stored
    rw [inserted_nil, List.append_nil]
  | cons row rows ih =>
    intro stored
    by_cases hrow : key row ∈ stored.map key
    · rw [inserted_cons_of_mem hrow, ih, List.find?_append, List.find?_append]
      by_cases hk : key row = k
      · -- The row that is passed over is not the first of its key.
        obtain ⟨other, hother, hsame⟩ := List.mem_map.mp hrow
        have hsome : (stored.find? (key · = k)).isSome = true :=
          List.find?_isSome.mpr ⟨other, hother, decide_eq_true (hsame.trans hk)⟩
        obtain ⟨found, hfound⟩ := Option.isSome_iff_exists.mp hsome
        rw [hfound]
        rfl
      · rw [List.find?_cons_of_neg (decide_eq_false hk ▸ Bool.false_ne_true)]
    · rw [inserted_cons_of_not_mem hrow, ih, List.append_assoc]
      rfl

end

end Store
