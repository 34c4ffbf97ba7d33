import Mathlib.Data.List.Nodup

/-!
# Dictionaries

A dictionary as a list of entries whose keys are distinct, which the type says. There is one lemma
for what each change does to a lookup.

**What it does not establish.** The order of the entries is kept but promised to nobody; two
dictionaries with the same lookups may be different lists.
-/

set_option autoImplicit false

namespace Store

/-- Entries with distinct keys, in the order in which the keys came. -/
structure Dict (κ ν : Type) where
  entries : List (κ × ν) := []
  nodup : (entries.map Prod.fst).Nodup := by exact List.nodup_nil

namespace Dict

variable {κ ν : Type} [DecidableEq κ]

instance : Inhabited (Dict κ ν) := ⟨{}⟩

def get? (d : Dict κ ν) (k : κ) : Option ν := d.entries.lookup k

def size (d : Dict κ ν) : Nat := d.entries.length

/-- The entries with the value at the key replaced, or appended. -/
def putEntry (k : κ) (v : ν) : List (κ × ν) → List (κ × ν)
  | [] => [(k, v)]
  | (k', v') :: rest => if k' = k then (k, v) :: rest else (k', v') :: putEntry k v rest

/-- An entry that is put keeps its place, or comes last. -/
theorem keys_putEntry (k : κ) (v : ν) (entries : List (κ × ν)) :
    (putEntry k v entries).map Prod.fst =
      if k ∈ entries.map Prod.fst then entries.map Prod.fst else entries.map Prod.fst ++ [k] := by
  induction entries with
  | nil => rfl
  | cons entry rest ih =>
    obtain ⟨k', v'⟩ := entry
    unfold putEntry
    by_cases h : k' = k
    · simp [h]
    · rw [if_neg h, List.map_cons, ih]
      by_cases hk : k ∈ rest.map Prod.fst
      · have hmem : k ∈ ((k', v') :: rest).map Prod.fst := List.mem_cons_of_mem _ hk
        rw [if_pos hk, if_pos hmem]
        rfl
      · have hnot : k ∉ ((k', v') :: rest).map Prod.fst := by
          rw [List.map_cons, List.mem_cons]
          intro hor
          exact hor.elim (fun heq => h heq.symm) hk
        rw [if_neg hk, if_neg hnot]
        rfl

/-- `d[k] = v`. -/
def put (d : Dict κ ν) (k : κ) (v : ν) : Dict κ ν where
  entries := putEntry k v d.entries
  nodup := by
    rw [keys_putEntry]
    split
    · exact d.nodup
    · rename_i h
      rw [List.nodup_append]
      refine ⟨d.nodup, List.nodup_singleton k, fun a ha b hb heq => h ?_⟩
      rw [← List.mem_singleton.mp hb, ← heq]
      exact ha

/-- The entries that satisfy a condition. -/
def filter (d : Dict κ ν) (p : κ → ν → Bool) : Dict κ ν where
  entries := d.entries.filter fun entry => p entry.1 entry.2
  nodup := (List.filter_sublist.map Prod.fst).nodup d.nodup

/-- `del d[k]`. -/
def erase (d : Dict κ ν) (k : κ) : Dict κ ν := d.filter fun k' _ => k' ≠ k

@[simp] theorem get?_empty (k : κ) : ({} : Dict κ ν).get? k = none := rfl

theorem get?_put (d : Dict κ ν) (k k' : κ) (v : ν) :
    (d.put k v).get? k' = if k' = k then some v else d.get? k' := by
  unfold get? put
  dsimp only
  induction d.entries with
  | nil =>
    by_cases h : k' = k
    · simp [putEntry, h]
    · simp [putEntry, h, List.lookup_cons, beq_false_of_ne h]
  | cons entry rest ih =>
    obtain ⟨k'', v''⟩ := entry
    unfold putEntry
    by_cases hput : k'' = k
    · rw [if_pos hput, List.lookup_cons, List.lookup_cons]
      by_cases h : k' = k
      · simp [h]
      · simp [h, hput, beq_false_of_ne h]
    · rw [if_neg hput, List.lookup_cons, List.lookup_cons, ih]
      by_cases h : k' = k''
      · have hne : k' ≠ k := fun heq => hput (h.symm.trans heq)
        simp [h, hput]
      · simp [beq_false_of_ne h]

@[simp] theorem get?_put_self (d : Dict κ ν) (k : κ) (v : ν) : (d.put k v).get? k = some v := by
  rw [get?_put, if_pos rfl]

theorem get?_put_ne (d : Dict κ ν) {k k' : κ} (v : ν) (h : k' ≠ k) :
    (d.put k v).get? k' = d.get? k' := by
  rw [get?_put, if_neg h]

/-- A lookup among the entries that were kept. -/
theorem get?_filter (d : Dict κ ν) (p : κ → ν → Bool) (k : κ) :
    (d.filter p).get? k = (d.get? k).filter (p k) := by
  obtain ⟨entries, hnodup⟩ := d
  unfold get? filter
  dsimp only
  induction entries with
  | nil => rfl
  | cons entry rest ih =>
    obtain ⟨k', v'⟩ := entry
    obtain ⟨hnot, hrest⟩ := List.nodup_cons.mp hnodup
    have hnone : k = k' → (rest.filter fun entry => p entry.1 entry.2).lookup k = none := by
      intro h
      rw [List.lookup_eq_none_iff]
      intro entry hentry
      rw [bne_iff_ne]
      intro heq
      have hmem : entry.1 ∈ rest.map Prod.fst :=
        List.mem_map_of_mem (List.mem_filter.mp hentry).1
      exact hnot (h.symm.trans heq ▸ hmem)
    have hcons : ((k', v') :: rest).filter (fun entry => p entry.1 entry.2) =
        if p k' v' = true then (k', v') :: rest.filter (fun entry => p entry.1 entry.2)
        else rest.filter fun entry => p entry.1 entry.2 := List.filter_cons
    by_cases hp : p k' v' = true
    · rw [hcons, if_pos hp, List.lookup_cons, List.lookup_cons, ih hrest]
      by_cases h : k = k'
      · subst h
        simp [Option.filter, hp]
      · simp [beq_false_of_ne h]
    · rw [hcons, if_neg hp, List.lookup_cons]
      by_cases h : k = k'
      · rw [hnone h]
        subst h
        simp [Option.filter, hp]
      · rw [ih hrest]
        simp [beq_false_of_ne h]

/-- A lookup after an entry was erased. -/
theorem get?_erase (d : Dict κ ν) (k k' : κ) :
    (d.erase k).get? k' = if k' = k then none else d.get? k' := by
  unfold erase
  rw [get?_filter]
  by_cases h : k' = k
  · cases d.get? k' <;> simp [h]
  · cases d.get? k' <;> simp [h]

end Dict

end Store
