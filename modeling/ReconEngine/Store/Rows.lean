import Mathlib.Data.List.Nodup

/-!
# Tables as lists of rows

A table is a list of rows with an identifier. An update statement changes the rows with given
identifiers; an insert statement appends rows. `updateIn` is the update, and its lemmas say what
it leaves alone: the rows with other identifiers, every column that the change does not write,
and the rows of a prefix that the identifiers are new to.

**What it does not establish.** That identifiers are distinct: an update changes every row with a
given identifier, and that there is one is an invariant of the tables.
-/

set_option autoImplicit false

namespace Store

variable {α β : Type}

/-- The rows whose identifier is among `ids`, changed by `f`. -/
def updateIn (key : α → Nat) (ids : List Nat) (f : α → α) (rows : List α) : List α :=
  rows.map fun row => if key row ∈ ids then f row else row

section

variable {key : α → Nat} {ids : List Nat} {f : α → α} {rows rows' : List α}

@[simp] theorem updateIn_no_ids : updateIn key [] f rows = rows := by
  simp only [updateIn, List.not_mem_nil, if_false, List.map_id']

/-- An update goes through two parts of a table alike. -/
theorem updateIn_append :
    updateIn key ids f (rows ++ rows') = updateIn key ids f rows ++ updateIn key ids f rows' :=
  List.map_append

theorem mem_updateIn {x : α} :
    x ∈ updateIn key ids f rows ↔ ∃ row ∈ rows, (if key row ∈ ids then f row else row) = x :=
  List.mem_map

/-- Rows with other identifiers stay as they are. -/
theorem updateIn_of_not_mem (h : ∀ row ∈ rows, key row ∉ ids) : updateIn key ids f rows = rows := by
  unfold updateIn
  conv_rhs => rw [← List.map_id rows]
  exact List.map_congr_left fun row hrow => if_neg (h row hrow)

/-- A column the change does not write stays as it is. -/
theorem map_updateIn {g : α → β} (hg : ∀ row, g (f row) = g row) :
    (updateIn key ids f rows).map g = rows.map g := by
  unfold updateIn
  rw [List.map_map]
  refine List.map_congr_left fun row _ => ?_
  simp only [Function.comp_apply]
  split
  · exact hg row
  · rfl

/-- Updating one row of a table. -/
theorem updateIn_middle {x : α} {pre post : List α} (h : ((pre ++ x :: post).map key).Nodup) :
    updateIn key [key x] f (pre ++ x :: post) = pre ++ f x :: post := by
  rw [List.map_append, List.map_cons, List.nodup_middle, List.nodup_cons, List.mem_append,
    not_or] at h
  obtain ⟨⟨hpre, hpost⟩, -⟩ := h
  have hother : ∀ rows : List α, key x ∉ rows.map key → updateIn key [key x] f rows = rows := by
    intro rows hx
    refine updateIn_of_not_mem fun row hrow hin => hx ?_
    exact List.mem_singleton.mp hin ▸ List.mem_map_of_mem hrow
  have hone : updateIn key [key x] f (x :: post) = f x :: updateIn key [key x] f post := by
    simp only [updateIn, List.map_cons, List.mem_singleton, if_true]
  rw [updateIn_append, hother pre hpre, hone, hother post hpost]

/-- Two rows of a table with one identifier are the same row. -/
theorem eq_of_key_eq (h : (rows.map key).Nodup) {x y : α} (hx : x ∈ rows) (hy : y ∈ rows)
    (hxy : key x = key y) : x = y :=
  List.inj_on_of_nodup_map h hx hy hxy

/-- Appending rows with new identifiers keeps the identifiers distinct. -/
theorem nodup_append_of_fresh (h : (rows.map key).Nodup) (h' : (rows'.map key).Nodup)
    (hne : ∀ row ∈ rows', ∀ old ∈ rows, key old ≠ key row) : ((rows ++ rows').map key).Nodup := by
  rw [List.map_append, List.nodup_append]
  refine ⟨h, h', ?_⟩
  intro a ha b hb
  obtain ⟨x, hx, rfl⟩ := List.mem_map.mp ha
  obtain ⟨y, hy, rfl⟩ := List.mem_map.mp hb
  exact hne y hy x hx

/-- Finding a row by its identifier after an update. -/
theorem find_updateIn (hf : ∀ x, key (f x) = key x) (ids : List Nat) (rows : List α) (id : Nat) :
    (updateIn key ids f rows).find? (fun x => decide (key x = id)) =
      (rows.find? fun x => decide (key x = id)).map fun x => if key x ∈ ids then f x else x := by
  unfold updateIn
  rw [List.find?_map]
  congr 2
  funext x
  simp only [Function.comp_apply]
  split
  · rw [hf]
  · rfl

end

/-- Making the same change to two sets of rows is making it to their union. -/
theorem updateIn_updateIn (key : α → Nat) (ids ids' : List Nat) (f : α → α) (rows : List α)
    (hkey : ∀ row, key (f row) = key row) (hf : ∀ row, f (f row) = f row) :
    updateIn key ids' f (updateIn key ids f rows) = updateIn key (ids ++ ids') f rows := by
  unfold updateIn
  rw [List.map_map]
  refine List.map_congr_left fun row _ => ?_
  simp only [Function.comp_apply, List.mem_append]
  by_cases h : key row ∈ ids
  · by_cases h' : key row ∈ ids'
    · simp only [h, h', hkey, if_true, true_or, hf]
    · simp only [h, h', hkey, if_true, if_false, true_or]
  · by_cases h' : key row ∈ ids'
    · simp only [h, h', if_true, if_false, or_true]
    · simp only [h, h', if_false, or_self]

/-- What is on the right of a row by row relation has its row on the left. -/
theorem forall₂_right {R : α → β → Prop} {xs : List α} {ys : List β}
    (h : List.Forall₂ R xs ys) : ∀ y ∈ ys, ∃ x ∈ xs, R x y := by
  induction h with
  | nil => exact fun _ hy => absurd hy List.not_mem_nil
  | cons hxy _ ih =>
    intro y hy
    rcases List.mem_cons.mp hy with rfl | hy
    · exact ⟨_, List.mem_cons_self, hxy⟩
    · obtain ⟨x, hx, hxy⟩ := ih y hy
      exact ⟨x, List.mem_cons_of_mem _ hx, hxy⟩

end Store
