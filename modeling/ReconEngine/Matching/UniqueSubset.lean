import ReconEngine.Matching.SubsetSum
import Mathlib.Algebra.BigOperators.Group.Finset.Basic
import Mathlib.Data.Finset.Powerset
import Mathlib.Data.Finset.Card

/-!
# What the subset search answers

A table denotes a function from keys to counts (`waysAt`), and `mergeEntry` is capped addition on
it. The sets of eligible indices below `n` with a given key are counted by the same recurrence,
Pascal's: a set below `n + 1` leaves `n` out, or is a smaller set with `n` put in. So the table
after `n` amounts counts, up to the cap, the sets of its first `n` indices (`Tabulates`), and the
answer read from it is the answer by definition.

**The law** (`findUniqueSubset_correct`): for all amounts, sizes, ranges and limits of states, the
answer is unique, ambiguous, none or too complex exactly as its definition has it, with the one
group in the first case.

**What it does not establish.** Anything about amounts that are not positive; the search leaves them
out, and what follows from that is in `Matching.GroupUnique`.
-/

set_option autoImplicit false

namespace Recon

/-! ## Sets of indices -/

/-- The indices below `n` of the amounts that are positive and at most `high`. -/
def eligibleIndices (amounts : List Int) (high : Int) (n : Nat) : Finset Nat :=
  (Finset.range n).filter fun i => 0 < amounts.getD i 0 ∧ amounts.getD i 0 ≤ high

def sumAt (amounts : List Int) (s : Finset Nat) : Int := ∑ i ∈ s, amounts.getD i 0

def sizeAndSum (amounts : List Int) (s : Finset Nat) : SubsetKey :=
  { size := s.card, total := sumAt amounts s }

/-- The sets of eligible indices below `n` with a given size and sum. -/
def choices (amounts : List Int) (high : Int) (n : Nat) (k : SubsetKey) : Finset (Finset Nat) :=
  (eligibleIndices amounts high n).powerset.filter fun s => sizeAndSum amounts s = k

/-- A state the search keeps: at most `maxSize` amounts, and a sum that has not passed `high`. -/
def Kept (maxSize : Nat) (high : Int) (k : SubsetKey) : Prop :=
  1 ≤ k.size ∧ k.size ≤ maxSize ∧ k.total ≤ high

instance (maxSize : Nat) (high : Int) (k : SubsetKey) : Decidable (Kept maxSize high k) :=
  inferInstanceAs (Decidable (_ ∧ _ ∧ _))

/-- The states that some set of the first `n` indices reaches. -/
def reachableStates (amounts : List Int) (high : Int) (maxSize n : Nat) : Finset SubsetKey :=
  ((eligibleIndices amounts high n).powerset.image (sizeAndSum amounts)).filter (Kept maxSize high)

/-- What the search is for: a set of eligible indices of an allowed size with its sum in range. -/
structure FittingSet (amounts : List Int) (low high : Int) (minSize maxSize : Nat)
    (s : Finset Nat) : Prop where
  eligible : ∀ i ∈ s, i < amounts.length ∧ 0 < amounts.getD i 0 ∧ amounts.getD i 0 ≤ high
  minSize : minSize ≤ s.card
  maxSize : s.card ≤ maxSize
  low : low ≤ sumAt amounts s
  high : sumAt amounts s ≤ high

section

variable {amounts : List Int} {high : Int} {n : Nat} {k : SubsetKey}

/-- The sets of eligible indices of a given size and sum. -/
theorem mem_choices {s : Finset Nat} :
    s ∈ choices amounts high n k ↔ s ⊆ eligibleIndices amounts high n ∧ sizeAndSum amounts s = k := by
  rw [choices, Finset.mem_filter, Finset.mem_powerset]

theorem notMem_eligible : n ∉ eligibleIndices amounts high n := by
  simp [eligibleIndices]

theorem eligible_mono {i : Nat} (h : i ∈ eligibleIndices amounts high n) :
    i ∈ eligibleIndices amounts high (n + 1) := by
  simp only [eligibleIndices, Finset.mem_filter, Finset.mem_range] at h ⊢
  exact ⟨Nat.lt_succ_of_lt h.1, h.2⟩

/-- An amount within the bounds adds its index. -/
theorem eligible_succ (hpos : 0 < amounts.getD n 0) (hhigh : amounts.getD n 0 ≤ high) :
    eligibleIndices amounts high (n + 1) = insert n (eligibleIndices amounts high n) := by
  rw [eligibleIndices, Finset.range_add_one, Finset.filter_insert, if_pos ⟨hpos, hhigh⟩]
  rfl

theorem eligible_skip (h : amounts.getD n 0 ≤ 0 ∨ amounts.getD n 0 > high) :
    eligibleIndices amounts high (n + 1) = eligibleIndices amounts high n := by
  rw [eligibleIndices, Finset.range_add_one, Finset.filter_insert, if_neg (by omega)]
  rfl

theorem sizeAndSum_insert {s : Finset Nat} {i : Nat} (hi : i ∉ s) :
    sizeAndSum amounts (insert i s) =
      { size := s.card + 1, total := amounts.getD i 0 + sumAt amounts s } := by
  rw [sizeAndSum, Finset.card_insert_of_notMem hi, sumAt, Finset.sum_insert hi, sumAt]

/-- A set of the first `n + 1` indices leaves the last out, or is a set of the first `n` with the
last put in. -/
theorem card_choices_succ (hpos : 0 < amounts.getD n 0) (hhigh : amounts.getD n 0 ≤ high)
    (size : Nat) (total : Int) :
    (choices amounts high (n + 1) { size := size + 1, total := total }).card =
      (choices amounts high n { size := size + 1, total := total }).card +
        (choices amounts high n { size := size, total := total - amounts.getD n 0 }).card := by
  have hout : ∀ s ∈ (eligibleIndices amounts high n).powerset, n ∉ s := fun s hs hn =>
    notMem_eligible (Finset.mem_powerset.mp hs hn)
  have hin : ((eligibleIndices amounts high n).powerset.image (insert n)).filter
        (fun s => sizeAndSum amounts s = { size := size + 1, total := total }) =
      (choices amounts high n { size := size, total := total - amounts.getD n 0 }).image
        (insert n) := by
    rw [choices, Finset.filter_image]
    congr 1
    refine Finset.filter_congr fun s hs => ?_
    rw [sizeAndSum_insert (hout s hs), sizeAndSum, SubsetKey.mk.injEq, SubsetKey.mk.injEq]
    omega
  have hdisjoint : Disjoint (choices amounts high n { size := size + 1, total := total })
      ((choices amounts high n { size := size, total := total - amounts.getD n 0 }).image
        (insert n)) := by
    refine Finset.disjoint_left.mpr fun s hs hs' => ?_
    obtain ⟨t, -, rfl⟩ := Finset.mem_image.mp hs'
    exact notMem_eligible ((mem_choices.mp hs).1 (Finset.mem_insert_self n t))
  have hinj : Set.InjOn (insert n)
      (choices amounts high n { size := size, total := total - amounts.getD n 0 } :
        Set (Finset Nat)) := by
    intro s hs t ht h
    have hs' : n ∉ s := fun hn => notMem_eligible ((mem_choices.mp hs).1 hn)
    have ht' : n ∉ t := fun hn => notMem_eligible ((mem_choices.mp ht).1 hn)
    rw [← Finset.erase_insert hs', h, Finset.erase_insert ht']
  rw [choices, eligible_succ hpos hhigh, Finset.powerset_insert, Finset.filter_union, hin]
  change ((choices amounts high n _) ∪ _).card = _
  rw [Finset.card_union_of_disjoint hdisjoint, Finset.card_image_of_injOn hinj]

theorem choices_skip (h : amounts.getD n 0 ≤ 0 ∨ amounts.getD n 0 > high) :
    choices amounts high (n + 1) k = choices amounts high n k := by
  rw [choices, eligible_skip h, choices]

/-- Only the empty set has no members. -/
theorem card_choices_zero (total : Int) :
    (choices amounts high n { size := 0, total := total }).card = if total = 0 then 1 else 0 := by
  have hmem : ∀ s, s ∈ choices amounts high n { size := 0, total := total } ↔
      s = ∅ ∧ total = 0 := by
    intro s
    rw [mem_choices, sizeAndSum, SubsetKey.mk.injEq, Finset.card_eq_zero]
    constructor
    · rintro ⟨-, rfl, h⟩
      exact ⟨rfl, h.symm⟩
    · rintro ⟨rfl, rfl⟩
      exact ⟨Finset.empty_subset _, rfl, rfl⟩
  split
  · rename_i h
    have hone : choices amounts high n { size := 0, total := total } = {∅} := by
      ext s
      rw [hmem, Finset.mem_singleton, and_iff_left h]
    rw [hone, Finset.card_singleton]
  · rename_i h
    rw [Finset.card_eq_zero]
    ext s
    simp [hmem, h]

/-- A state is reachable when there is a set for it. -/
theorem mem_reachableStates {maxSize : Nat} :
    k ∈ reachableStates amounts high maxSize n ↔
      Kept maxSize high k ∧ 0 < (choices amounts high n k).card := by
  rw [reachableStates, Finset.mem_filter, Finset.mem_image, Finset.card_pos]
  constructor
  · rintro ⟨⟨s, hs, hk⟩, hkept⟩
    exact ⟨hkept, s, mem_choices.mpr ⟨Finset.mem_powerset.mp hs, hk⟩⟩
  · rintro ⟨hkept, s, hs⟩
    obtain ⟨hsub, hk⟩ := mem_choices.mp hs
    exact ⟨⟨s, Finset.mem_powerset.mpr hsub, hk⟩, hkept⟩

end

/-! ## What a table denotes -/

/-- The count a table gives a key; zero when the key is not in it. -/
def waysAt : SubsetTable → SubsetKey → Nat
  | [], _ => 0
  | e :: table, k => (if e.key = k then e.ways else 0) + waysAt table k

/-- What `mergeEntry` builds: each key once, with a count from one up to the cap. -/
structure TableOk (table : SubsetTable) : Prop where
  keys : (table.map (·.key)).Nodup
  positive : ∀ e ∈ table, 0 < e.ways
  capped : ∀ e ∈ table, e.ways ≤ subsetCap

section

variable {table : SubsetTable} {k : SubsetKey}

theorem waysAt_append (rows table : SubsetTable) :
    waysAt (rows ++ table) k = waysAt rows k + waysAt table k := by
  induction rows with
  | nil => exact (Nat.zero_add _).symm
  | cons e rows ih => rw [List.cons_append, waysAt, waysAt, ih, Nat.add_assoc]

/-- A change of the other keys' counts does not show. -/
theorem waysAt_map {f : SubsetEntry → SubsetEntry}
    (hf : ∀ e, (if (f e).key = k then (f e).ways else 0) = if e.key = k then e.ways else 0) :
    waysAt (table.map f) k = waysAt table k := by
  induction table with
  | nil => rfl
  | cons e table ih => rw [List.map_cons, waysAt, waysAt, hf, ih]

theorem waysAt_cons (e : SubsetEntry) (table : SubsetTable) :
    waysAt (e :: table) k = (if e.key = k then e.ways else 0) + waysAt table k := rfl

theorem waysAt_eq_zero (h : ∀ e ∈ table, e.key ≠ k) : waysAt table k = 0 := by
  induction table with
  | nil => rfl
  | cons e table ih =>
    rw [waysAt_cons, if_neg (h e List.mem_cons_self),
      ih fun x hx => h x (List.mem_cons_of_mem e hx)]

/-- With distinct keys an entry is all there is of its key. -/
theorem waysAt_of_mem (hk : (table.map (·.key)).Nodup) {e : SubsetEntry} (he : e ∈ table) :
    waysAt table e.key = e.ways := by
  induction table with
  | nil => cases he
  | cons x table ih =>
    rw [List.map_cons, List.nodup_cons] at hk
    rw [waysAt_cons]
    rcases List.mem_cons.mp he with rfl | he
    · rw [if_pos rfl, waysAt_eq_zero, Nat.add_zero]
      intro y hy hkey
      exact hk.1 (List.mem_map.mpr ⟨y, hy, hkey⟩)
    · rw [if_neg, ih hk.2 he, Nat.zero_add]
      intro hkey
      exact hk.1 (List.mem_map.mpr ⟨e, he, hkey.symm⟩)

theorem TableOk.nil : TableOk [] where
  keys := List.nodup_nil
  positive _ he := absurd he List.not_mem_nil
  capped _ he := absurd he List.not_mem_nil

/-- A state with a count is in the table. -/
theorem TableOk.waysAt_pos (h : TableOk table) : 0 < waysAt table k ↔ ∃ e ∈ table, e.key = k := by
  constructor
  · intro hpos
    by_contra hnone
    rw [waysAt_eq_zero fun e he hk => hnone ⟨e, he, hk⟩] at hpos
    exact Nat.lt_irrefl 0 hpos
  · rintro ⟨e, he, rfl⟩
    rw [waysAt_of_mem h.keys he]
    exact h.positive e he

theorem TableOk.waysAt_le (h : TableOk table) : waysAt table k ≤ subsetCap := by
  by_cases hex : ∃ e ∈ table, e.key = k
  · obtain ⟨e, he, rfl⟩ := hex
    rw [waysAt_of_mem h.keys he]
    exact h.capped e he
  · rw [waysAt_eq_zero fun e he hk => hex ⟨e, he, hk⟩]
    exact Nat.zero_le _

/-- Merging into a key the table has. -/
theorem map_merge_keys (table : SubsetTable) (e : SubsetEntry) :
    (table.map fun old =>
      if old.key = e.key then { old with ways := min (old.ways + e.ways) subsetCap } else old).map
        (·.key) = table.map (·.key) := by
  rw [List.map_map]
  refine List.map_congr_left fun old _ => ?_
  dsimp only [Function.comp_apply]
  split <;> rfl

/-- Merging keeps one entry for each state. -/
theorem TableOk.merge (h : TableOk table) {e : SubsetEntry} (he : 0 < e.ways) :
    TableOk (mergeEntry table e) := by
  unfold mergeEntry
  split
  · exact
      { keys := by
          rw [map_merge_keys]
          exact h.keys
        positive := by
          intro x hx
          obtain ⟨old, hold, rfl⟩ := List.mem_map.mp hx
          have := h.positive old hold
          split
          · simp only [subsetCap]
            omega
          · exact this
        capped := by
          intro x hx
          obtain ⟨old, hold, rfl⟩ := List.mem_map.mp hx
          split
          · exact Nat.min_le_right _ _
          · exact h.capped old hold }
  · rename_i hnew
    exact
      { keys := by
          rw [List.map_append, List.map_singleton]
          refine List.nodup_append.mpr ⟨h.keys, List.nodup_singleton _, ?_⟩
          intro a ha b hb hab
          obtain ⟨x, hx, rfl⟩ := List.mem_map.mp ha
          rw [List.mem_singleton.mp hb] at hab
          exact hnew (List.any_eq_true.mpr ⟨x, hx, decide_eq_true hab⟩)
        positive := by
          intro x hx
          rcases List.mem_append.mp hx with hx | hx
          · exact h.positive x hx
          · rw [List.mem_singleton.mp hx]
            simp only [subsetCap]
            omega
        capped := by
          intro x hx
          rcases List.mem_append.mp hx with hx | hx
          · exact h.capped x hx
          · rw [List.mem_singleton.mp hx]
            exact Nat.min_le_right _ _ }

/-- `_merge` is capped addition at the entry's key, and leaves the other keys alone. -/
theorem TableOk.waysAt_merge (h : TableOk table) {e : SubsetEntry} (he : 0 < e.ways) :
    waysAt (mergeEntry table e) k =
      if e.key = k then min (waysAt table k + e.ways) subsetCap else waysAt table k := by
  have hok := h.merge he
  by_cases hany : table.any (·.key = e.key)
  · have hmerge : mergeEntry table e = table.map fun old =>
        if old.key = e.key then { old with ways := min (old.ways + e.ways) subsetCap } else old := by
      rw [mergeEntry, if_pos hany]
    split
    · rename_i hk
      subst hk
      obtain ⟨old, hold, hkey⟩ := List.any_eq_true.mp hany
      have hkey : old.key = e.key := of_decide_eq_true hkey
      have hmem : { old with ways := min (old.ways + e.ways) subsetCap } ∈ mergeEntry table e := by
        rw [hmerge]
        exact List.mem_map.mpr ⟨old, hold, if_pos hkey⟩
      have hnew := waysAt_of_mem hok.keys hmem
      dsimp only at hnew
      rw [← hkey, hnew, waysAt_of_mem h.keys hold]
    · rename_i hk
      rw [hmerge]
      exact waysAt_map fun old => by
        split
        · rename_i hold
          rw [if_neg (by rw [hold]; exact hk), if_neg (by rw [hold]; exact hk)]
        · rfl
  · have hmerge : mergeEntry table e =
        table ++ [{ e with ways := min e.ways subsetCap }] := by
      rw [mergeEntry, if_neg hany]
    rw [hmerge, waysAt_append, waysAt_cons]
    dsimp only
    split
    · rename_i hk
      have hzero : waysAt table k = 0 := waysAt_eq_zero fun x hx hxk =>
        hany (List.any_eq_true.mpr ⟨x, hx, decide_eq_true (hxk.trans hk.symm)⟩)
      rw [hzero]
      simp [waysAt]
    · simp [waysAt]

/-- Merging all rows of a table adds up their counts. -/
theorem TableOk.mergeAll : ∀ {rows states : SubsetTable}, TableOk states →
    (∀ e ∈ rows, 0 < e.ways) →
    TableOk (rows.foldl mergeEntry states) ∧
      ∀ k, waysAt (rows.foldl mergeEntry states) k =
        min (waysAt states k + waysAt rows k) subsetCap
  | [], states, hs, _ => ⟨hs, fun k => (Nat.min_eq_left hs.waysAt_le).symm⟩
  | e :: rows, states, hs, hrows => by
    have he : 0 < e.ways := hrows e List.mem_cons_self
    obtain ⟨hok, hways⟩ := TableOk.mergeAll (hs.merge he)
      fun x hx => hrows x (List.mem_cons_of_mem e hx)
    refine ⟨hok, fun k => ?_⟩
    rw [List.foldl_cons, hways, hs.waysAt_merge he, waysAt_cons]
    split <;> omega

theorem waysAt_extensions_zero (maxSize : Nat) (high amount : Int) (index : Nat)
    (states : SubsetTable) (total : Int) :
    waysAt (subsetExtensions maxSize high amount index states) { size := 0, total := total } =
      0 := by
  refine waysAt_eq_zero fun e he hk => ?_
  obtain ⟨old, -, rfl⟩ := List.mem_map.mp he
  cases hk

/-- The groups of one size that end with an amount are those of the size before, as far as there
is room. -/
theorem waysAt_extensions_succ (maxSize : Nat) (high amount : Int) (index : Nat)
    (states : SubsetTable) (size : Nat) (total : Int) :
    waysAt (subsetExtensions maxSize high amount index states)
        { size := size + 1, total := total } =
      if size < maxSize ∧ total ≤ high then
        waysAt states { size := size, total := total - amount } else 0 := by
  induction states with
  | nil => simp [subsetExtensions, waysAt]
  | cons e states ih =>
    have hkey : ∀ k : SubsetKey, k = { size := size, total := total - amount } ↔
        { size := k.size + 1, total := k.total + amount : SubsetKey } =
          { size := size + 1, total := total } := by
      intro k
      obtain ⟨s, t⟩ := k
      rw [SubsetKey.mk.injEq, SubsetKey.mk.injEq]
      dsimp only
      omega
    rw [subsetExtensions, List.filter_cons, waysAt_cons]
    by_cases he : e.key = { size := size, total := total - amount }
    · have hroom : (e.key.size < maxSize ∧ e.key.total + amount ≤ high) ↔
          (size < maxSize ∧ total ≤ high) := by
        rw [he]
        dsimp only
        omega
      rw [if_pos he]
      by_cases hr : size < maxSize ∧ total ≤ high
      · rw [if_pos (decide_eq_true (hroom.mpr hr)), List.map_cons, waysAt_cons,
          if_pos ((hkey _).mp he), if_pos hr]
        rw [if_pos hr] at ih
        exact congrArg (e.ways + ·) ih
      · rw [if_neg (by rw [decide_eq_true_eq, hroom]; exact hr), if_neg hr]
        rw [if_neg hr] at ih
        exact ih
    · rw [if_neg he, Nat.zero_add]
      split
      · rw [List.map_cons, waysAt_cons, if_neg (fun h => he ((hkey _).mpr h)), Nat.zero_add]
        exact ih
      · exact ih

end

/-! ## The table counts the sets -/

/-- The table after the first `n` amounts: it holds the states their sets reach, the capped count
of the sets of each, and one of them. -/
structure Tabulates (amounts : List Int) (high : Int) (maxSize n : Nat) (table : SubsetTable) :
    Prop where
  ok : TableOk table
  ways : ∀ k, waysAt table k =
    if Kept maxSize high k then min (choices amounts high n k).card subsetCap else 0

section

variable {amounts : List Int} {high : Int} {maxSize n : Nat} {table : SubsetTable}

theorem Tabulates.nil (amounts : List Int) (high : Int) (maxSize : Nat) :
    Tabulates amounts high maxSize 0 [] where
  ok := TableOk.nil
  ways k := by
    split
    · rename_i hk
      have hnone : choices amounts high 0 k = ∅ := by
        ext s
        rw [mem_choices]
        constructor
        · rintro ⟨hs, rfl⟩
          have hs : s = ∅ := Finset.subset_empty.mp hs
          rw [hs] at hk
          exact absurd hk.1 (by simp [sizeAndSum])
        · intro h
          cases h
      rw [hnone]
      rfl
    · rfl

/-- An amount that is skipped changes nothing. -/
theorem Tabulates.skip (h : Tabulates amounts high maxSize n table)
    (hs : amounts.getD n 0 ≤ 0 ∨ amounts.getD n 0 > high) :
    Tabulates amounts high maxSize (n + 1) table where
  ok := h.ok
  ways k := by rw [h.ways, choices_skip hs]

/-- One amount of the search. -/
theorem Tabulates.step (h : Tabulates amounts high maxSize n table) (hmax : 1 ≤ maxSize)
    (hpos : 0 < amounts.getD n 0) (hhigh : amounts.getD n 0 ≤ high) :
    Tabulates amounts high maxSize (n + 1)
      ((subsetAdditions maxSize high (amounts.getD n 0) n table).foldl mergeEntry table) := by
  have hextensions : ∀ e ∈ subsetExtensions maxSize high (amounts.getD n 0) n table ++
      [({ key := { size := 1, total := amounts.getD n 0 }, ways := 1, witness := [n] } :
        SubsetEntry)], 0 < e.ways := by
    intro e he
    rcases List.mem_append.mp he with he | he
    · obtain ⟨old, hold, rfl⟩ := List.mem_map.mp he
      exact h.ok.positive old (List.mem_of_mem_filter hold)
    · rw [List.mem_singleton.mp he]
      exact Nat.one_pos
  obtain ⟨hadded, hways⟩ := TableOk.mergeAll TableOk.nil hextensions
  rw [← subsetAdditions_eq] at hadded hways
  obtain ⟨hok, hall⟩ := TableOk.mergeAll h.ok hadded.positive
  refine ⟨hok, fun k => ?_⟩
  rw [hall, hways, h.ways, waysAt_append]
  obtain ⟨size, total⟩ := k
  cases size with
  | zero =>
    have hkept : ¬ Kept maxSize high { size := 0, total := total } := fun hk =>
      absurd hk.1 (Nat.not_succ_le_zero 0)
    rw [waysAt_extensions_zero, if_neg hkept, if_neg hkept]
    simp [waysAt]
  | succ size =>
    rw [waysAt_extensions_succ, h.ways, card_choices_succ hpos hhigh]
    by_cases hk : Kept maxSize high { size := size + 1, total := total }
    · have hsize : size < maxSize := hk.2.1
      have htotal : total ≤ high := hk.2.2
      rw [if_pos hk, if_pos hk, if_pos ⟨hsize, htotal⟩]
      cases size with
      | zero =>
        have hzero : ¬ Kept maxSize high
            { size := 0, total := total - amounts.getD n 0 } := fun hk =>
          absurd hk.1 (Nat.not_succ_le_zero 0)
        rw [if_neg hzero, card_choices_zero]
        simp only [waysAt, SubsetKey.mk.injEq, subsetCap]
        by_cases ht : amounts.getD n 0 = total
        · rw [if_pos ⟨trivial, ht⟩, if_pos (by omega)]
          omega
        · rw [if_neg (fun hx => ht hx.2), if_neg (by omega)]
          omega
      | succ size =>
        have hkept : Kept maxSize high
            { size := size + 1, total := total - amounts.getD n 0 } := by
          refine ⟨Nat.succ_pos size, ?_, ?_⟩
          · dsimp only
            omega
          · dsimp only
            omega
        rw [if_pos hkept]
        simp only [waysAt, SubsetKey.mk.injEq, subsetCap]
        rw [if_neg (by omega)]
        omega
    · rw [if_neg hk, if_neg hk]
      have hroom : ¬ (size < maxSize ∧ total ≤ high) := fun hr =>
        hk ⟨Nat.succ_pos size, hr.1, hr.2⟩
      rw [if_neg hroom]
      simp only [waysAt, SubsetKey.mk.injEq]
      rw [if_neg]
      · rfl
      · rintro ⟨hsize, htotal⟩
        exact hroom ⟨by omega, htotal ▸ hhigh⟩

/-- A table has one entry for each state reached. -/
theorem Tabulates.mem_keys (h : Tabulates amounts high maxSize n table) {k : SubsetKey} :
    k ∈ table.map (·.key) ↔ k ∈ reachableStates amounts high maxSize n := by
  have hiff : k ∈ table.map (·.key) ↔ 0 < waysAt table k := by
    rw [h.ok.waysAt_pos, List.mem_map]
  rw [hiff, h.ways, mem_reachableStates, subsetCap]
  split
  · rename_i hk
    rw [and_iff_right hk]
    omega
  · rename_i hk
    exact ⟨fun hpos => absurd hpos (Nat.lt_irrefl 0), fun hr => absurd hr.1 hk⟩

/-- The table has one entry for each reachable state. -/
theorem Tabulates.length (h : Tabulates amounts high maxSize n table) :
    table.length = (reachableStates amounts high maxSize n).card := by
  have hset : (table.map (·.key)).toFinset = reachableStates amounts high maxSize n := by
    ext k
    rw [List.mem_toFinset, h.mem_keys]
  rw [← hset, List.toFinset_card_of_nodup h.ok.keys, List.length_map]

/-- The search goes through the amounts as long as the table fits, and gives up at the first one
after which it does not. -/
theorem subsetStates_tabulates (maxStates : Nat) (hmax : 1 ≤ maxSize) :
    ∀ (rest : List Int) (index : Nat) (states : SubsetTable),
      (∀ k, amounts.getD (index + k) 0 = rest.getD k 0) →
      Tabulates amounts high maxSize index states →
      states.length ≤ maxStates →
      (∃ states', subsetStates maxSize maxStates high index rest states = some states' ∧
          Tabulates amounts high maxSize (index + rest.length) states' ∧
          ∀ n, index < n → n ≤ index + rest.length →
            (reachableStates amounts high maxSize n).card ≤ maxStates) ∨
        (subsetStates maxSize maxStates high index rest states = none ∧
          ∃ n ≤ index + rest.length, maxStates < (reachableStates amounts high maxSize n).card)
  | [], index, states, _, ht, _ =>
    .inl ⟨states, rfl, ht, fun n hlt hle => absurd hle (by rw [List.length_nil]; omega)⟩
  | a :: rest, index, states, hrest, ht, hfits => by
    have ha : amounts.getD index 0 = a := hrest 0
    have hnext : ∀ k, amounts.getD (index + 1 + k) 0 = rest.getD k 0 := by
      intro k
      have := hrest (k + 1)
      rw [show index + 1 + k = index + (k + 1) by omega, this]
      rfl
    have hlen : index + (a :: rest).length = index + 1 + rest.length := by
      rw [List.length_cons]
      omega
    -- what the rest of the amounts gives, from the table after this one
    have hgo : ∀ states' : SubsetTable, Tabulates amounts high maxSize (index + 1) states' →
        states'.length ≤ maxStates →
        (∃ final, subsetStates maxSize maxStates high (index + 1) rest states' = some final ∧
            Tabulates amounts high maxSize (index + (a :: rest).length) final ∧
            ∀ n, index < n → n ≤ index + (a :: rest).length →
              (reachableStates amounts high maxSize n).card ≤ maxStates) ∨
          (subsetStates maxSize maxStates high (index + 1) rest states' = none ∧
            ∃ n ≤ index + (a :: rest).length,
              maxStates < (reachableStates amounts high maxSize n).card) := by
      intro states' ht' hfits'
      rw [hlen]
      rcases subsetStates_tabulates maxStates hmax rest (index + 1) states' hnext ht' hfits' with
        ⟨final, hrun, hfinal, hall⟩ | hnone
      · refine .inl ⟨final, hrun, hfinal, fun n hlt hle => ?_⟩
        rcases Nat.lt_or_ge (index + 1) n with hn | hn
        · exact hall n hn hle
        · have : n = index + 1 := by omega
          rw [this, ← ht'.length]
          exact hfits'
      · exact .inr hnone
    unfold subsetStates
    by_cases hskip : a ≤ 0 ∨ a > high
    · rw [if_pos hskip]
      exact hgo states (ht.skip (ha ▸ hskip)) hfits
    · rw [if_neg hskip]
      have hstep := ht.step hmax (by rw [ha]; omega) (by rw [ha]; omega)
      rw [ha] at hstep
      dsimp only
      by_cases hbig : ((subsetAdditions maxSize high a index states).foldl mergeEntry
          states).length > maxStates
      · rw [if_pos hbig]
        refine .inr ⟨rfl, index + 1, by omega, ?_⟩
        rw [← hstep.length]
        exact hbig
      · rw [if_neg hbig]
        exact hgo _ hstep (Nat.le_of_not_lt hbig)

end

/-! ## The answer -/

section

variable {amounts : List Int} {low high : Int} {minSize maxSize : Nat} {table : SubsetTable}

/-- A fitting set is a set with a kept key in range. -/
theorem fittingSet_iff (hmin : 1 ≤ minSize) {s : Finset Nat} :
    FittingSet amounts low high minSize maxSize s ↔
      s ∈ choices amounts high amounts.length (sizeAndSum amounts s) ∧
        Kept maxSize high (sizeAndSum amounts s) ∧ minSize ≤ (sizeAndSum amounts s).size ∧
        low ≤ (sizeAndSum amounts s).total := by
  constructor
  · intro h
    refine ⟨mem_choices.mpr ⟨fun i hi => ?_, rfl⟩, ⟨?_, h.maxSize, h.high⟩, h.minSize, h.low⟩
    · simp only [eligibleIndices, Finset.mem_filter, Finset.mem_range]
      exact h.eligible i hi
    · exact Nat.le_trans hmin h.minSize
  · rintro ⟨hs, hkept, hsize, hlow⟩
    refine ⟨fun i hi => ?_, hsize, hkept.2.1, hlow, hkept.2.2⟩
    have := (mem_choices.mp hs).1 hi
    simpa only [eligibleIndices, Finset.mem_filter, Finset.mem_range] using this

/-- The entries the answer is read from. -/
def subsetHits (low high : Int) (minSize : Nat) (table : SubsetTable) : SubsetTable :=
  table.filter fun e => minSize ≤ e.key.size ∧ low ≤ e.key.total ∧ e.key.total ≤ high

theorem mem_subsetHits {e : SubsetEntry} :
    e ∈ subsetHits low high minSize table ↔
      e ∈ table ∧ minSize ≤ e.key.size ∧ low ≤ e.key.total ∧ e.key.total ≤ high := by
  rw [subsetHits, List.mem_filter, decide_eq_true_eq]

/-- Every fitting set is counted by a hit. -/
theorem Tabulates.hit_of_fitting (h : Tabulates amounts high maxSize amounts.length table)
    (hmin : 1 ≤ minSize) {s : Finset Nat} (hs : FittingSet amounts low high minSize maxSize s) :
    ∃ e ∈ subsetHits low high minSize table,
      s ∈ choices amounts high amounts.length e.key := by
  obtain ⟨hmem, hkept, hsize, hlow⟩ := (fittingSet_iff hmin).mp hs
  obtain ⟨e, he, hkey⟩ := List.mem_map.mp (h.mem_keys.mpr
    (mem_reachableStates.mpr ⟨hkept, Finset.card_pos.mpr ⟨s, hmem⟩⟩))
  refine ⟨e, mem_subsetHits.mpr ⟨he, ?_⟩, ?_⟩
  · rw [hkey]
    exact ⟨hsize, hlow, hkept.2.2⟩
  · rw [hkey]
    exact hmem

/-- Every set a hit counts is fitting, and it counts them up to the cap. -/
theorem Tabulates.hit (h : Tabulates amounts high maxSize amounts.length table)
    (hmin : 1 ≤ minSize) {e : SubsetEntry} (he : e ∈ subsetHits low high minSize table) :
    (∀ s ∈ choices amounts high amounts.length e.key,
        FittingSet amounts low high minSize maxSize s) ∧
      0 < (choices amounts high amounts.length e.key).card ∧
      e.ways = min (choices amounts high amounts.length e.key).card subsetCap := by
  obtain ⟨hmem, hsize, hlow, -⟩ := mem_subsetHits.mp he
  obtain ⟨hkept, hcard⟩ := mem_reachableStates.mp
    (h.mem_keys.mp (List.mem_map.mpr ⟨e, hmem, rfl⟩))
  refine ⟨fun s hs => ?_, hcard, ?_⟩
  · have hkey : sizeAndSum amounts s = e.key := (mem_choices.mp hs).2
    refine (fittingSet_iff hmin).mpr ?_
    rw [hkey]
    exact ⟨hs, hkept, hsize, hlow⟩
  · rw [← waysAt_of_mem h.ok.keys hmem, h.ways, if_pos hkept]

theorem subsetHits_nodup (low high : Int) (minSize : Nat) (h : TableOk table) :
    ((subsetHits low high minSize table).map (·.key)).Nodup :=
  h.keys.sublist (List.filter_sublist.map _)

end

/-- The witness of an entry names eligible amounts. -/
theorem eligible_rule (amounts : List Int) (maxSize : Nat) (high : Int) :
    EntryRule amounts maxSize high fun n e => ∀ i ∈ e.witness, i ∈ eligibleIndices amounts high n
    where
  ways _ h := h
  mono h i hi := eligible_mono (h i hi)
  extend {n e a} ha hpos hhigh _ _ h i hi := by
    rw [eligible_succ (ha ▸ hpos) (ha ▸ hhigh)]
    rcases List.mem_append.mp hi with hi | hi
    · exact Finset.mem_insert_of_mem (h i hi)
    · rw [List.mem_singleton.mp hi]
      exact Finset.mem_insert_self _ _
  single {n a} ha hpos hhigh i hi := by
    rw [eligible_succ (ha ▸ hpos) (ha ▸ hhigh), List.mem_singleton.mp hi]
    exact Finset.mem_insert_self _ _

/-- The witness of an entry is one of the sets it counts. -/
theorem SubsetEntry.Witnessed.mem_choices {amounts : List Int} {high : Int} {n : Nat}
    {e : SubsetEntry} (h : e.Witnessed amounts n)
    (heligible : ∀ i ∈ e.witness, i ∈ eligibleIndices amounts high n) :
    e.witness.toFinset ∈ choices amounts high n e.key := by
  have hnodup : e.witness.Nodup := h.increasing.imp Nat.ne_of_lt
  refine Recon.mem_choices.mpr ⟨fun i hi => heligible i (List.mem_toFinset.mp hi), ?_⟩
  have hsize : e.witness.toFinset.card = e.key.size := by
    rw [List.toFinset_card_of_nodup hnodup, h.size]
  have htotal : sumAt amounts e.witness.toFinset = e.key.total := by
    rw [sumAt, List.sum_toFinset _ hnodup, h.total]
  rw [sizeAndSum, hsize, htotal]

/-- The answer read from the hits. -/
def subsetAnswer : SubsetTable → SubsetSearch
  | [] => { outcome := .none }
  | [e] =>
    if e.ways ≥ subsetCap then { outcome := .ambiguous }
    else { outcome := .unique, indices := e.witness, total := e.key.total }
  | _ => { outcome := .ambiguous }

theorem findUniqueSubset_eq {amounts : List Int} {low high : Int} {minSize maxSize : Nat}
    (maxStates : Nat) (hrange : low ≤ high) (hmin : 1 ≤ minSize) (hmax : minSize ≤ maxSize) :
    findUniqueSubset amounts low high minSize maxSize maxStates =
      .ok ((subsetStates maxSize maxStates high 0 amounts []).elim { outcome := .tooComplex }
        fun table => subsetAnswer (subsetHits low high minSize table)) := by
  unfold findUniqueSubset
  rw [if_neg (by omega), if_neg (by omega)]
  cases subsetStates maxSize maxStates high 0 amounts [] with
  | none => rfl
  | some table =>
    dsimp only [Option.elim_some]
    rw [subsetHits]
    cases table.filter fun e =>
      minSize ≤ e.key.size ∧ low ≤ e.key.total ∧ e.key.total ≤ high with
    | nil => rfl
    | cons e hits =>
      cases hits with
      | nil =>
        dsimp only [subsetAnswer]
        split <;> rfl
      | cons => rfl

/-- The answer to whether one, none or several sets have a property. -/
def AnswersFor (P : Finset Nat → Prop) (outcome : SubsetOutcome) : Prop :=
  (outcome = .unique ∧ ∃! s, P s) ∨ (outcome = .none ∧ ¬ ∃ s, P s) ∨
    (outcome = .ambiguous ∧ ∃ s t, s ≠ t ∧ P s ∧ P t)

/-- One, none and several sets are three different cases. -/
theorem AnswersFor.iffs {P : Finset Nat → Prop} {outcome : SubsetOutcome}
    (h : AnswersFor P outcome) :
    (outcome = .unique ↔ ∃! s, P s) ∧ (outcome = .none ↔ ¬ ∃ s, P s) ∧
      (outcome = .ambiguous ↔ ∃ s t, s ≠ t ∧ P s ∧ P t) := by
  have hno : ∀ s t, s ≠ t ∧ P s ∧ P t → ¬ ∃! s, P s := by
    rintro s t ⟨hne, hs, ht⟩ ⟨u, -, hu⟩
    exact hne ((hu s hs).trans (hu t ht).symm)
  rcases h with ⟨rfl, hone⟩ | ⟨rfl, hnone⟩ | ⟨rfl, hmany⟩
  · refine ⟨by simp [hone], ?_, ?_⟩
    · simpa using hone.exists
    · simpa using fun s t hne hs ht => hno s t ⟨hne, hs, ht⟩ hone
  · refine ⟨?_, by simpa using hnone, ?_⟩
    · simpa using fun hone => hnone (ExistsUnique.exists hone)
    · simpa using fun s t _ hs _ => hnone ⟨s, hs⟩
  · obtain ⟨s, t, hst⟩ := hmany
    refine ⟨?_, ?_, by simpa using ⟨s, t, hst⟩⟩
    · simpa using hno s t hst
    · simpa using ⟨s, hst.2.1⟩

/-- A single hit is unique when it counts one set, and more hits are more sets. -/
theorem subsetAnswer_spec {amounts : List Int} (low : Int) {high : Int} {minSize maxSize : Nat}
    {table : SubsetTable} (h : Tabulates amounts high maxSize amounts.length table)
    (hmin : 1 ≤ minSize) {found : SubsetSearch}
    (hfound : found = subsetAnswer (subsetHits low high minSize table)) :
    AnswersFor (FittingSet amounts low high minSize maxSize) found.outcome ∧
      (found.outcome = .unique → ∃ e ∈ subsetHits low high minSize table,
        found.indices = e.witness ∧ found.total = e.key.total) := by
  have hfind : ∀ s, FittingSet amounts low high minSize maxSize s →
      ∃ e ∈ subsetHits low high minSize table, s ∈ choices amounts high amounts.length e.key :=
    fun s hs => h.hit_of_fitting hmin hs
  have hhit := fun e (he : e ∈ subsetHits low high minSize table) => h.hit hmin he
  have hnodup := subsetHits_nodup low high minSize h.ok
  generalize subsetHits low high minSize table = hits at *
  cases hits with
  | nil =>
    subst hfound
    refine ⟨.inr (.inl ⟨rfl, ?_⟩), by simp [subsetAnswer]⟩
    rintro ⟨s, hs⟩
    obtain ⟨e, he, -⟩ := hfind s hs
    cases he
  | cons e hits =>
    obtain ⟨hfits, hcard, hways⟩ := hhit e List.mem_cons_self
    cases hits with
    | nil =>
      by_cases hcap : e.ways ≥ subsetCap
      · have hmany : 1 < (choices amounts high amounts.length e.key).card := by
          simp only [subsetCap] at hcap hways
          omega
        obtain ⟨s, hs, t, ht, hne⟩ := Finset.one_lt_card.mp hmany
        rw [subsetAnswer, if_pos hcap] at hfound
        subst hfound
        exact ⟨.inr (.inr ⟨rfl, s, t, hne, hfits s hs, hfits t ht⟩), by simp⟩
      · have hone : (choices amounts high amounts.length e.key).card = 1 := by
          simp only [subsetCap] at hcap hways
          omega
        obtain ⟨s, hs⟩ := Finset.card_eq_one.mp hone
        rw [subsetAnswer, if_neg hcap] at hfound
        subst hfound
        refine ⟨.inl ⟨rfl, s, hfits s (hs ▸ Finset.mem_singleton_self s), fun t ht => ?_⟩,
          fun _ => ⟨e, List.mem_singleton_self e, rfl, rfl⟩⟩
        obtain ⟨e', he', ht'⟩ := hfind t ht
        rw [List.mem_singleton.mp he', hs] at ht'
        exact Finset.mem_singleton.mp ht'
    | cons e' hits =>
      obtain ⟨hfits', hcard', -⟩ := hhit e' (List.mem_cons_of_mem e List.mem_cons_self)
      obtain ⟨s, hs⟩ := Finset.card_pos.mp hcard
      obtain ⟨t, ht⟩ := Finset.card_pos.mp hcard'
      subst hfound
      refine ⟨.inr (.inr ⟨rfl, s, t, ?_, hfits s hs, hfits' t ht⟩), by simp [subsetAnswer]⟩
      rintro rfl
      have hkey : e.key = e'.key := (mem_choices.mp hs).2.symm.trans (mem_choices.mp ht).2
      rw [List.map_cons, List.map_cons, List.nodup_cons, hkey] at hnodup
      exact hnodup.1 List.mem_cons_self

/-- The states reached outgrow the limit after some amount. -/
def OutgrowsLimit (amounts : List Int) (high : Int) (maxSize maxStates : Nat) : Prop :=
  ∃ n ≤ amounts.length, maxStates < (reachableStates amounts high maxSize n).card

/-- The search either gives up or answers, and the set it returns is one that fits. -/
theorem findUniqueSubset_spec {amounts : List Int} {low high : Int} {minSize maxSize : Nat}
    (maxStates : Nat) (hrange : low ≤ high) (hmin : 1 ≤ minSize) (hmax : minSize ≤ maxSize) :
    ∃ found, findUniqueSubset amounts low high minSize maxSize maxStates = .ok found ∧
      ((found.outcome = .tooComplex ∧ OutgrowsLimit amounts high maxSize maxStates) ∨
        (¬ OutgrowsLimit amounts high maxSize maxStates ∧
          AnswersFor (FittingSet amounts low high minSize maxSize) found.outcome ∧
          (found.outcome = .unique → found.indices.Pairwise (· < ·) ∧
            FittingSet amounts low high minSize maxSize found.indices.toFinset ∧
            found.total = sumAt amounts found.indices.toFinset))) := by
  rw [findUniqueSubset_eq maxStates hrange hmin hmax]
  rcases subsetStates_tabulates maxStates (Nat.le_trans hmin hmax) amounts 0 []
      (fun k => by rw [Nat.zero_add]) (Tabulates.nil amounts high maxSize) (Nat.zero_le _) with
    ⟨table, hrun, htable, hfits⟩ | ⟨hrun, hbig⟩
  · rw [Nat.zero_add] at htable hfits
    have hsmall : ¬ OutgrowsLimit amounts high maxSize maxStates := by
      rintro ⟨n, hn, hlt⟩
      rcases Nat.eq_zero_or_pos n with rfl | hpos
      · rw [← (Tabulates.nil amounts high maxSize).length] at hlt
        exact absurd hlt (Nat.not_lt_zero _)
      · exact absurd hlt (Nat.not_lt.mpr (hfits n hpos hn))
    obtain ⟨hanswer, hwitness⟩ := subsetAnswer_spec low htable hmin rfl
    simp only [hrun, Option.elim_some]
    refine ⟨_, rfl, .inr ⟨hsmall, hanswer, fun hunique => ?_⟩⟩
    obtain ⟨e, he, hindices, htotal⟩ := hwitness hunique
    obtain ⟨hmem, -, -⟩ := mem_subsetHits.mp he
    have hw := subsetStates_forall (witnessed_rule maxSize high) amounts 0 []
      (fun k => by rw [Nat.zero_add]) (fun e he => absurd he List.not_mem_nil) hrun e hmem
    have heligible := subsetStates_forall (eligible_rule amounts maxSize high) amounts 0 []
      (fun k => by rw [Nat.zero_add]) (fun e he => absurd he List.not_mem_nil) hrun e hmem
    rw [Nat.zero_add] at hw heligible
    have hchoice := hw.mem_choices heligible
    rw [hindices, htotal]
    exact ⟨hw.increasing, (htable.hit hmin he).1 _ hchoice,
      (congrArg SubsetKey.total (mem_choices.mp hchoice).2).symm⟩
  · rw [Nat.zero_add] at hbig
    rw [hrun]
    exact ⟨_, rfl, .inl ⟨rfl, hbig⟩⟩

/-- What a search that came to an answer was asked. -/
theorem findUniqueSubset_asked {amounts : List Int} {low high : Int}
    {minSize maxSize maxStates : Nat} {found : SubsetSearch}
    (h : findUniqueSubset amounts low high minSize maxSize maxStates = .ok found) :
    low ≤ high ∧ 1 ≤ minSize ∧ minSize ≤ maxSize := by
  unfold findUniqueSubset at h
  split at h
  · cases h
  · split at h
    · cases h
    · omega

/-- **A unique set is the only one.** -/
theorem findUniqueSubset_unique {amounts : List Int} {low high : Int}
    {minSize maxSize maxStates : Nat} {found : SubsetSearch}
    (h : findUniqueSubset amounts low high minSize maxSize maxStates = .ok found)
    (hu : found.outcome = .unique) :
    found.indices.Pairwise (· < ·) ∧
      FittingSet amounts low high minSize maxSize found.indices.toFinset ∧
      ∀ s, FittingSet amounts low high minSize maxSize s → s = found.indices.toFinset := by
  obtain ⟨hrange, hmin, hmax⟩ := findUniqueSubset_asked h
  obtain ⟨found', hrun, hcases⟩ := findUniqueSubset_spec maxStates hrange hmin hmax
  obtain rfl : found' = found := Except.ok.inj (hrun.symm.trans h)
  rcases hcases with ⟨hcomplex, -⟩ | ⟨-, hanswer, hset⟩
  · rw [hu] at hcomplex
    cases hcomplex
  · obtain ⟨hincreasing, hfits, -⟩ := hset hu
    obtain ⟨t, -, honly⟩ := hanswer.iffs.1.mp hu
    exact ⟨hincreasing, hfits, fun s hs => (honly s hs).trans (honly _ hfits).symm⟩

/-- **The subset search is correct.** It gives up exactly when the states reached outgrow the
limit after some amount; otherwise it answers whether one, none or several sets fit, and a unique
set comes with its indices in order and its sum. -/
theorem findUniqueSubset_correct (amounts : List Int) {low high : Int} {minSize maxSize : Nat}
    (maxStates : Nat) (hrange : low ≤ high) (hmin : 1 ≤ minSize)
    (hmax : minSize ≤ maxSize) :
    ∃ found, findUniqueSubset amounts low high minSize maxSize maxStates = .ok found ∧
      (found.outcome = .tooComplex ↔ ∃ n ≤ amounts.length,
        maxStates < (reachableStates amounts high maxSize n).card) ∧
      (found.outcome ≠ .tooComplex →
        (found.outcome = .unique ↔ ∃! s, FittingSet amounts low high minSize maxSize s) ∧
        (found.outcome = .none ↔ ¬ ∃ s, FittingSet amounts low high minSize maxSize s) ∧
        (found.outcome = .ambiguous ↔ ∃ s t, s ≠ t ∧
          FittingSet amounts low high minSize maxSize s ∧
          FittingSet amounts low high minSize maxSize t)) ∧
      (found.outcome = .unique → found.indices.Pairwise (· < ·) ∧
        FittingSet amounts low high minSize maxSize found.indices.toFinset ∧
        found.total = sumAt amounts found.indices.toFinset) := by
  obtain ⟨found, hrun, hcases⟩ := findUniqueSubset_spec maxStates hrange hmin hmax
  refine ⟨found, hrun, ?_⟩
  rcases hcases with ⟨hcomplex, hbig⟩ | ⟨hsmall, hanswer, hset⟩
  · refine ⟨⟨fun _ => hbig, fun _ => hcomplex⟩, fun h => absurd hcomplex h, fun h => ?_⟩
    rw [hcomplex] at h
    cases h
  · refine ⟨⟨fun hcomplex => ?_, fun hbig => absurd hbig hsmall⟩, fun _ => hanswer.iffs, hset⟩
    rcases hanswer with ⟨h, -⟩ | ⟨h, -⟩ | ⟨h, -⟩
    all_goals
      rw [h] at hcomplex
      cases hcomplex

/-- Of 30, 70 and 50 only the first two make 100, so the search finds them. -/
theorem findUniqueSubset_correct_pair :
    (∃! s, FittingSet [30, 70, 50] 100 100 2 3 s) ∧
      FittingSet [30, 70, 50] 100 100 2 3 [0, 1].toFinset := by
  obtain ⟨found, hrun, -, hanswer, hset⟩ := findUniqueSubset_correct [30, 70, 50] 10
    (Int.le_refl 100) (by decide : 1 ≤ 2) (by decide : 2 ≤ 3)
  have hfound : found = { outcome := .unique, indices := [0, 1], total := 100 } := by
    have hrun' : findUniqueSubset [30, 70, 50] 100 100 2 3 10 =
        .ok { outcome := .unique, indices := [0, 1], total := 100 } := rfl
    rw [hrun'] at hrun
    exact (Except.ok.inj hrun).symm
  subst hfound
  exact ⟨(hanswer (by decide)).1.mp rfl, (hset rfl).2.1⟩

end Recon
