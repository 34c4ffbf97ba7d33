import Mathlib.Data.List.Nodup

/-!
# Rows in chunks and in groups

A long list of keys is sent in chunks, and rows that share a key are collected into groups, in the
order in which the keys appear. Neither loses or repeats a row.

**The laws** (`flatten_chunksOf`, `rows_of_mem_groupsOn`, `keys_groupsOn_nodup`): chunks put
together are the list, a group has the rows of its key, all of them and in their order, and no key
has two groups.

**What they do not establish.** An order between groups beyond that of first appearance, which SQL
does not promise; callers that need one sort.
-/

set_option autoImplicit false

namespace Store

variable {α κ : Type}

/-! ## Chunks -/

/-- `xs[start : start + size]` for every start. -/
def chunksOf (size : Nat) (xs : List α) : List (List α) :=
  (List.range ((xs.length + size - 1) / size)).map fun k => (xs.drop (size * k)).take size

theorem mem_chunksOf {size : Nat} {xs chunk : List α} (h : chunk ∈ chunksOf size xs) {x : α}
    (hx : x ∈ chunk) : x ∈ xs := by
  obtain ⟨k, -, rfl⟩ := List.mem_map.mp h
  exact List.mem_of_mem_drop (List.mem_of_mem_take hx)

/-- The first `m` chunks are the first `size * m` elements. -/
theorem flatten_range_chunks (size : Nat) (xs : List α) (m : Nat) :
    ((List.range m).map fun k => (xs.drop (size * k)).take size).flatten = xs.take (size * m) := by
  induction m with
  | zero => simp
  | succ m ih =>
    rw [List.range_succ, List.map_append, List.flatten_append, ih, Nat.mul_succ, List.take_add]
    simp

/-- The chunks make up the list. -/
theorem flatten_chunksOf {size : Nat} (h : 0 < size) (xs : List α) :
    (chunksOf size xs).flatten = xs := by
  unfold chunksOf
  rw [flatten_range_chunks]
  refine List.take_of_length_le ?_
  have hdiv := Nat.div_add_mod (xs.length + size - 1) size
  have hmod := Nat.mod_lt (xs.length + size - 1) h
  omega

/-- Keeping some elements of each part keeps some elements of the whole. -/
theorem flatMap_sublist {β : Type} {f g : α → List β} (h : ∀ x, (f x).Sublist (g x)) :
    ∀ xs : List α, (xs.flatMap f).Sublist (xs.flatMap g)
  | [] => List.Sublist.refl _
  | x :: xs => (h x).append (flatMap_sublist h xs)

/-! ## Groups -/

variable [DecidableEq κ]

/-- `groups.setdefault(key, []).append(row)`. -/
def insertGroup (key : κ) (row : α) : List (κ × List α) → List (κ × List α)
  | [] => [(key, [row])]
  | (k, rows) :: groups =>
    if k = key then (k, rows ++ [row]) :: groups else (k, rows) :: insertGroup key row groups

/-- The rows by key. -/
def groupsOn (key : α → κ) (rows : List α) : List (κ × List α) :=
  rows.foldl (fun groups row => insertGroup (key row) row groups) []

/-- Inserting a row into its group adds that row. -/
theorem flatMap_insertGroup (key : κ) (row : α) (groups : List (κ × List α)) :
    ((insertGroup key row groups).flatMap (·.2)).Perm (groups.flatMap (·.2) ++ [row]) := by
  induction groups with
  | nil => exact List.Perm.refl _
  | cons group groups ih =>
    unfold insertGroup
    by_cases h : group.1 = key
    · rw [if_pos h, List.flatMap_cons, List.flatMap_cons, List.append_assoc, List.append_assoc]
      exact List.perm_append_comm.append_left _
    · rw [if_neg h, List.flatMap_cons, List.flatMap_cons, List.append_assoc]
      exact ih.append_left _

/-- The groups together hold the rows. -/
theorem flatMap_groupsOn (key : α → κ) (rows : List α) :
    ((groupsOn key rows).flatMap (·.2)).Perm rows := by
  unfold groupsOn
  have h : ∀ (rows : List α) (groups : List (κ × List α)),
      ((rows.foldl (fun groups row => insertGroup (key row) row groups) groups).flatMap (·.2)).Perm
        (groups.flatMap (·.2) ++ rows) := by
    intro rows
    induction rows with
    | nil => exact fun groups => (List.append_nil _).symm ▸ List.Perm.refl _
    | cons row rows ih =>
      intro groups
      refine (ih _).trans ?_
      rw [List.append_cons]
      exact (flatMap_insertGroup (key row) row groups).append_right rows
  exact h rows []

/-- What is in a group was there, or is the new row in its own group. -/
theorem mem_insertGroup {key : κ} {row : α} {groups : List (κ × List α)} {group : κ × List α}
    (h : group ∈ insertGroup key row groups) {x : α} (hx : x ∈ group.2) :
    (∃ g ∈ groups, g.1 = group.1 ∧ x ∈ g.2) ∨ (group.1 = key ∧ x = row) := by
  induction groups with
  | nil =>
    obtain rfl := List.mem_singleton.mp h
    exact .inr ⟨rfl, List.mem_singleton.mp hx⟩
  | cons g groups ih =>
    unfold insertGroup at h
    by_cases hg : g.1 = key
    · rw [if_pos hg] at h
      rcases List.mem_cons.mp h with rfl | h
      · rcases List.mem_append.mp hx with hx | hx
        · exact .inl ⟨g, List.mem_cons_self, rfl, hx⟩
        · exact .inr ⟨hg, List.mem_singleton.mp hx⟩
      · exact .inl ⟨group, List.mem_cons_of_mem _ h, rfl, hx⟩
    · rw [if_neg hg] at h
      rcases List.mem_cons.mp h with rfl | h
      · exact .inl ⟨_, List.mem_cons_self, rfl, hx⟩
      · rcases ih h with ⟨g', hg', hkey⟩ | hnew
        · exact .inl ⟨g', List.mem_cons_of_mem _ hg', hkey⟩
        · exact .inr hnew

/-- The rows of a group have its key. -/
theorem key_of_mem_groupsOn {key : α → κ} {rows : List α} {group : κ × List α}
    (h : group ∈ groupsOn key rows) {x : α} (hx : x ∈ group.2) : key x = group.1 := by
  unfold groupsOn at h
  have hall : ∀ (rows : List α) (groups : List (κ × List α)),
      (∀ g ∈ groups, ∀ x ∈ g.2, key x = g.1) →
      ∀ g ∈ rows.foldl (fun groups row => insertGroup (key row) row groups) groups,
        ∀ x ∈ g.2, key x = g.1 := by
    intro rows
    induction rows with
    | nil => exact fun _ h => h
    | cons row rows ih =>
      intro groups hgroups
      refine ih _ fun g hg x hx => ?_
      rcases mem_insertGroup hg hx with ⟨g', hg', hkey, hx'⟩ | ⟨hkey, rfl⟩
      · exact hkey ▸ hgroups g' hg' x hx'
      · exact hkey.symm
  exact hall rows [] (fun _ h => absurd h List.not_mem_nil) group h x hx

/-- The rows of the group with a key. -/
def rowsUnder (groups : List (κ × List α)) (key : κ) : List α :=
  ((groups.find? (·.1 = key)).map (·.2)).getD []

/-- The new row comes last in its group. -/
theorem rowsUnder_insertGroup (key : κ) (row : α) (groups : List (κ × List α)) (k : κ) :
    rowsUnder (insertGroup key row groups) k =
      rowsUnder groups k ++ if key = k then [row] else [] := by
  induction groups with
  | nil => by_cases h : key = k <;> simp [insertGroup, rowsUnder, h]
  | cons group groups ih =>
    unfold insertGroup
    by_cases hgroup : group.1 = key
    · rw [if_pos hgroup]
      by_cases hk : key = k <;> simp [rowsUnder, hgroup, hk]
    · rw [if_neg hgroup]
      by_cases hk : group.1 = k
      · have hkey : key ≠ k := fun heq => hgroup (hk.trans heq.symm)
        simp [rowsUnder, hk, hkey]
      · have hskip : ∀ gs : List (κ × List α), rowsUnder (group :: gs) k = rowsUnder gs k := by
          intro gs
          simp [rowsUnder, hk]
        rw [hskip, hskip, ih]

/-- The group with a key holds the rows with that key, in their order. -/
theorem rowsUnder_groupsOn (key : α → κ) (rows : List α) (k : κ) :
    rowsUnder (groupsOn key rows) k = rows.filter fun row => key row = k := by
  unfold groupsOn
  have h : ∀ (rows : List α) (groups : List (κ × List α)),
      rowsUnder (rows.foldl (fun groups row => insertGroup (key row) row groups) groups) k =
        rowsUnder groups k ++ rows.filter fun row => key row = k := by
    intro rows
    induction rows with
    | nil => exact fun groups => (List.append_nil _).symm
    | cons row rows ih =>
      intro groups
      rw [List.foldl_cons, ih, rowsUnder_insertGroup, List.append_assoc]
      by_cases hk : key row = k <;> simp [hk]
  exact h rows []

theorem keys_insertGroup (key : κ) (row : α) (groups : List (κ × List α)) :
    (insertGroup key row groups).map (·.1) =
      if key ∈ groups.map (·.1) then groups.map (·.1) else groups.map (·.1) ++ [key] := by
  induction groups with
  | nil => rfl
  | cons group groups ih =>
    unfold insertGroup
    by_cases hgroup : group.1 = key
    · simp [hgroup]
    · rw [if_neg hgroup, List.map_cons, ih]
      by_cases hkey : key ∈ groups.map (·.1)
      · rw [if_pos hkey, List.map_cons, if_pos (List.mem_cons_of_mem _ hkey)]
      · have hnot : key ∉ group.1 :: groups.map (·.1) := by
          rw [List.mem_cons, not_or]
          exact ⟨Ne.symm hgroup, hkey⟩
        rw [if_neg hkey, List.map_cons, if_neg hnot, List.cons_append]

/-- No two groups have one key. -/
theorem keys_groupsOn_nodup (key : α → κ) (rows : List α) :
    ((groupsOn key rows).map (·.1)).Nodup := by
  unfold groupsOn
  have h : ∀ (rows : List α) (groups : List (κ × List α)), (groups.map (·.1)).Nodup →
      ((rows.foldl (fun groups row => insertGroup (key row) row groups) groups).map (·.1)).Nodup := by
    intro rows
    induction rows with
    | nil => exact fun _ h => h
    | cons row rows ih =>
      intro groups hgroups
      refine ih _ ?_
      rw [keys_insertGroup]
      by_cases hkey : key row ∈ groups.map (·.1)
      · rw [if_pos hkey]
        exact hgroups
      · rw [if_neg hkey]
        refine List.nodup_append.mpr ⟨hgroups, List.nodup_singleton _, ?_⟩
        intro a ha b hb heq
        exact hkey (List.mem_singleton.mp hb ▸ heq ▸ ha)
  exact h rows [] List.nodup_nil

/-- The rows of a group are those of its key. -/
theorem rows_of_mem_groupsOn {key : α → κ} {rows : List α} {group : κ × List α}
    (h : group ∈ groupsOn key rows) : group.2 = rows.filter fun row => key row = group.1 := by
  have hfind : (groupsOn key rows).find? (·.1 = group.1) = some group := by
    obtain ⟨found, hfound⟩ := Option.isSome_iff_exists.mp
      (List.find?_isSome (p := fun g : κ × List α => decide (g.1 = group.1)) |>.mpr
        ⟨group, h, decide_eq_true rfl⟩)
    have hkey : found.1 = group.1 := by simpa using List.find?_some hfound
    rw [hfound, List.inj_on_of_nodup_map (keys_groupsOn_nodup key rows)
      (List.mem_of_find?_eq_some hfound) h hkey]
  rw [← rowsUnder_groupsOn, rowsUnder, hfind]
  rfl

/-- Every row is in the group of its key. -/
theorem key_mem_groupsOn {key : α → κ} {rows : List α} {row : α} (h : row ∈ rows) :
    key row ∈ (groupsOn key rows).map (·.1) := by
  obtain ⟨group, hgroup, hrow⟩ := List.mem_flatMap.mp ((flatMap_groupsOn key rows).mem_iff.mpr h)
  rw [key_of_mem_groupsOn hgroup hrow]
  exact List.mem_map_of_mem hgroup

end Store
