import ReconEngine.Model.Tables
import Mathlib.Algebra.Ring.Int.Defs
import Mathlib.Data.List.Basic
import Mathlib.Order.Basic

/-!
# Bounded subset sums

`find_unique_subset` looks for a group of amounts whose sum falls inside a range and reports
whether there is only one. Its table maps a group size and a running sum to the number of distinct
subsets that reach them, capped at two, and one witness.

`find_witness` is what a caller relies on: the indices of a unique group are increasing, and name
amounts that add up to a total inside the range.

**What it does not establish.** That the answer `unique` is given whenever there is one group, or
that a count is right: for that the table has to be compared with the sets it counts
(`Matching.UniqueSubset`).
-/

set_option autoImplicit false

namespace Recon

inductive SubsetOutcome where
  | unique
  | none
  | ambiguous
  | tooComplex
deriving DecidableEq, Repr

structure SubsetSearch where
  outcome : SubsetOutcome
  indices : List Nat := []
  total : Int := 0
deriving DecidableEq, Repr

/-- "One" versus "more than one" is all the caller needs. -/
def subsetCap : Nat := 2

structure SubsetKey where
  size : Nat
  total : Int
deriving DecidableEq, Repr

structure SubsetEntry where
  key : SubsetKey
  ways : Nat
  witness : List Nat
deriving DecidableEq, Repr

/-- A dictionary by key, in insertion order. -/
abbrev SubsetTable := List SubsetEntry

/-- `_merge`. -/
def mergeEntry (table : SubsetTable) (e : SubsetEntry) : SubsetTable :=
  if table.any (·.key = e.key) then
    table.map fun old =>
      if old.key = e.key then { old with ways := min (old.ways + e.ways) subsetCap } else old
  else
    table ++ [{ e with ways := min e.ways subsetCap }]

/-- The groups that end with the amount at `index`. -/
def subsetAdditions (maxSize : Nat) (high : Int) (amount : Int) (index : Nat)
    (states : SubsetTable) : SubsetTable :=
  let extended := states.foldl (fun acc e =>
    if e.key.size < maxSize ∧ e.key.total + amount ≤ high then
      mergeEntry acc
        { key := { size := e.key.size + 1, total := e.key.total + amount }, ways := e.ways,
          witness := e.witness ++ [index] }
    else acc) []
  mergeEntry extended { key := { size := 1, total := amount }, ways := 1, witness := [index] }

/-- The table after the amounts from `index` on; `none` when it outgrows `maxStates`. -/
def subsetStates (maxSize maxStates : Nat) (high : Int) : Nat → List Int → SubsetTable →
    Option SubsetTable
  | _, [], states => some states
  | index, amount :: amounts, states =>
    if amount ≤ 0 ∨ amount > high then
      subsetStates maxSize maxStates high (index + 1) amounts states
    else
      let states' := (subsetAdditions maxSize high amount index states).foldl mergeEntry states
      if states'.length > maxStates then none
      else subsetStates maxSize maxStates high (index + 1) amounts states'

def findUniqueSubset (amounts : List Int) (low high : Int) (minSize maxSize maxStates : Nat) :
    Except ReconError SubsetSearch :=
  if low > high then .error (.valueError "low must not exceed high")
  else if minSize < 1 ∨ maxSize < minSize then
    .error (.valueError "need 1 <= min_size <= max_size")
  else match subsetStates maxSize maxStates high 0 amounts [] with
    | none => .ok { outcome := .tooComplex }
    | some states =>
      match states.filter fun e => minSize ≤ e.key.size ∧ low ≤ e.key.total ∧ e.key.total ≤ high with
      | [] => .ok { outcome := .none }
      | [e] =>
        if e.ways ≥ subsetCap then .ok { outcome := .ambiguous }
        else .ok { outcome := .unique, indices := e.witness, total := e.key.total }
      | _ => .ok { outcome := .ambiguous }

/-! ## Witnesses -/

/-- The witness of an entry is a group of its size and sum among the first `bound` amounts. -/
structure SubsetEntry.Witnessed (amounts : List Int) (bound : Nat) (e : SubsetEntry) : Prop where
  increasing : e.witness.Pairwise (· < ·)
  below : ∀ i ∈ e.witness, i < bound
  size : e.witness.length = e.key.size
  total : (e.witness.map fun i => amounts.getD i 0).sum = e.key.total
  nonempty : 0 < e.key.size

section

variable {amounts : List Int} {bound : Nat} {table : SubsetTable}

/-- Merging keeps what does not depend on the count. -/
theorem mergeEntry_forall {P : SubsetEntry → Prop}
    (hP : ∀ (e : SubsetEntry) (ways : Nat), P e → P { e with ways := ways })
    (ht : ∀ e ∈ table, P e) {e : SubsetEntry} (he : P e) : ∀ x ∈ mergeEntry table e, P x := by
  unfold mergeEntry
  split
  · intro x hx
    obtain ⟨old, hold, rfl⟩ := List.mem_map.mp hx
    split
    · exact hP old _ (ht old hold)
    · exact ht old hold
  · intro x hx
    rcases List.mem_append.mp hx with hx | hx
    · exact ht x hx
    · rw [List.mem_singleton.mp hx]
      exact hP e _ he

theorem SubsetEntry.Witnessed.ways {e : SubsetEntry} (h : e.Witnessed amounts bound) (ways : Nat) :
    SubsetEntry.Witnessed amounts bound { e with ways := ways } :=
  ⟨h.increasing, h.below, h.size, h.total, h.nonempty⟩

/-- A witness stays one when more amounts are looked at. -/
theorem SubsetEntry.Witnessed.mono {e : SubsetEntry} (h : e.Witnessed amounts bound) :
    e.Witnessed amounts (bound + 1) :=
  ⟨h.increasing, fun i hi => Nat.lt_succ_of_lt (h.below i hi), h.size, h.total, h.nonempty⟩

/-- Adding the next amount to a group. -/
theorem SubsetEntry.Witnessed.extend {e : SubsetEntry} (h : e.Witnessed amounts bound) {a : Int}
    (ha : amounts.getD bound 0 = a) :
    SubsetEntry.Witnessed amounts (bound + 1)
      { key := { size := e.key.size + 1, total := e.key.total + a }, ways := e.ways,
        witness := e.witness ++ [bound] } where
  increasing := by
    rw [List.pairwise_append]
    refine ⟨h.increasing, List.pairwise_singleton _ _, fun i hi j hj => ?_⟩
    rw [List.mem_singleton.mp hj]
    exact h.below i hi
  below i hi := by
    rcases List.mem_append.mp hi with hi | hi
    · exact Nat.lt_succ_of_lt (h.below i hi)
    · rw [List.mem_singleton.mp hi]
      exact Nat.lt_succ_self bound
  size := by rw [List.length_append, h.size, List.length_singleton]
  total := by
    rw [List.map_append, List.sum_append, h.total, List.map_singleton, List.sum_singleton, ha]
  nonempty := Nat.succ_pos _

/-- What holds of every entry of the table, whatever its count. -/
structure EntryRule (amounts : List Int) (maxSize : Nat) (high : Int)
    (P : Nat → SubsetEntry → Prop) : Prop where
  ways : ∀ {n : Nat} {e : SubsetEntry} (ways : Nat), P n e → P n { e with ways := ways }
  mono : ∀ {n : Nat} {e : SubsetEntry}, P n e → P (n + 1) e
  extend : ∀ {n : Nat} {e : SubsetEntry} {a : Int}, amounts.getD n 0 = a → 0 < a → a ≤ high →
    e.key.size < maxSize → e.key.total + a ≤ high → P n e → P (n + 1)
      { key := { size := e.key.size + 1, total := e.key.total + a }, ways := e.ways,
        witness := e.witness ++ [n] }
  single : ∀ {n : Nat} {a : Int}, amounts.getD n 0 = a → 0 < a → a ≤ high →
    P (n + 1) { key := { size := 1, total := a }, ways := 1, witness := [n] }

theorem mergeAll_forall {P : SubsetEntry → Prop}
    (hP : ∀ (e : SubsetEntry) (ways : Nat), P e → P { e with ways := ways }) :
    ∀ (rows states : SubsetTable), (∀ e ∈ rows, P e) → (∀ e ∈ states, P e) →
      ∀ e ∈ rows.foldl mergeEntry states, P e
  | [], _, _, hstates => hstates
  | row :: rows, states, hrows, hstates =>
    mergeAll_forall hP rows (mergeEntry states row)
      (fun e he => hrows e (List.mem_cons_of_mem row he))
      (mergeEntry_forall hP hstates (hrows row List.mem_cons_self))

/-- The groups an amount adds to: those with room for it, each one amount larger. -/
def subsetExtensions (maxSize : Nat) (high : Int) (amount : Int) (index : Nat)
    (states : SubsetTable) : SubsetTable :=
  (states.filter fun e => e.key.size < maxSize ∧ e.key.total + amount ≤ high).map fun e =>
    { key := { size := e.key.size + 1, total := e.key.total + amount }, ways := e.ways,
      witness := e.witness ++ [index] }

theorem subsetAdditions_eq (maxSize : Nat) (high amount : Int) (index : Nat)
    (states : SubsetTable) :
    subsetAdditions maxSize high amount index states =
      (subsetExtensions maxSize high amount index states ++
        [({ key := { size := 1, total := amount }, ways := 1, witness := [index] } :
          SubsetEntry)]).foldl mergeEntry [] := by
  unfold subsetAdditions subsetExtensions
  rw [List.foldl_append, List.foldl_map, List.foldl_filter]
  simp

theorem subsetAdditions_forall {P : Nat → SubsetEntry → Prop} {maxSize : Nat} {high a : Int}
    (rule : EntryRule amounts maxSize high P) (ha : amounts.getD bound 0 = a) (hpos : 0 < a)
    (hhigh : a ≤ high) (ht : ∀ e ∈ table, P bound e) :
    ∀ e ∈ subsetAdditions maxSize high a bound table, P (bound + 1) e := by
  rw [subsetAdditions_eq]
  refine mergeAll_forall (fun e ways h => rule.ways ways h) _ [] ?_
    fun e he => absurd he List.not_mem_nil
  intro e he
  rcases List.mem_append.mp he with he | he
  · obtain ⟨old, hold, rfl⟩ := List.mem_map.mp he
    obtain ⟨hmem, hroom⟩ := List.mem_filter.mp hold
    obtain ⟨hsize, htotal⟩ := of_decide_eq_true hroom
    exact rule.extend ha hpos hhigh hsize htotal (ht old hmem)
  · rw [List.mem_singleton.mp he]
    exact rule.single ha hpos hhigh

/-- What the rule keeps holds of every entry of the table. -/
theorem subsetStates_forall {P : Nat → SubsetEntry → Prop} {maxSize maxStates : Nat} {high : Int}
    (rule : EntryRule amounts maxSize high P) :
    ∀ (rest : List Int) (index : Nat) (states : SubsetTable) {states' : SubsetTable},
      (∀ k, amounts.getD (index + k) 0 = rest.getD k 0) →
      (∀ e ∈ states, P index e) →
      subsetStates maxSize maxStates high index rest states = some states' →
      ∀ e ∈ states', P (index + rest.length) e
  | [], index, states, states', _, hs, h => by
    cases h
    exact hs
  | a :: rest, index, states, states', hrest, hs, h => by
    have ha : amounts.getD index 0 = a := hrest 0
    have hnext : ∀ k, amounts.getD (index + 1 + k) 0 = rest.getD k 0 := by
      intro k
      have := hrest (k + 1)
      rw [show index + 1 + k = index + (k + 1) by omega, this]
      rfl
    have hlen : index + (a :: rest).length = index + 1 + rest.length := by
      rw [List.length_cons]
      omega
    rw [hlen]
    unfold subsetStates at h
    split at h
    · exact subsetStates_forall rule rest (index + 1) states hnext
        (fun e he => rule.mono (hs e he)) h
    · rename_i hskip
      dsimp only at h
      split at h
      · cases h
      · refine subsetStates_forall rule rest (index + 1) _ hnext ?_ h
        exact mergeAll_forall (fun e ways he => rule.ways ways he) _ states
          (subsetAdditions_forall rule ha (by omega) (by omega) hs) fun e he =>
            rule.mono (hs e he)

theorem witnessed_rule (maxSize : Nat) (high : Int) :
    EntryRule amounts maxSize high fun n e => e.Witnessed amounts n where
  ways ways h := h.ways ways
  mono h := h.mono
  extend ha _ _ _ _ h := h.extend ha
  single {n a} ha _ _ :=
    { increasing := List.pairwise_singleton _ _
      below := fun i hi => by
        rw [List.mem_singleton.mp hi]
        exact Nat.lt_succ_self n
      size := rfl
      total := by rw [List.map_singleton, List.sum_singleton, ha]
      nonempty := Nat.one_pos }

end

/-- **A unique group is a group.** Its indices are increasing and name amounts, it has at least
`minSize` members, and they add up to a total inside the range. -/
theorem find_witness {amounts : List Int} {low high : Int} {minSize maxSize maxStates : Nat}
    {found : SubsetSearch}
    (h : findUniqueSubset amounts low high minSize maxSize maxStates = .ok found)
    (hu : found.outcome = .unique) :
    found.indices.Pairwise (· < ·) ∧ (∀ i ∈ found.indices, i < amounts.length) ∧
      minSize ≤ found.indices.length ∧
      (found.indices.map fun i => amounts.getD i 0).sum = found.total ∧
      low ≤ found.total ∧ found.total ≤ high := by
  unfold findUniqueSubset at h
  split at h
  · cases h
  split at h
  · cases h
  split at h
  · cases h
    cases hu
  · rename_i states hstates
    have hw := subsetStates_forall (witnessed_rule maxSize high) amounts 0 []
      (fun k => by rw [Nat.zero_add]) (fun e he => absurd he List.not_mem_nil) hstates
    split at h
    · cases h
      cases hu
    · rename_i e hfilter
      split at h
      · cases h
        cases hu
      · cases h
        have hmem : e ∈ states.filter fun e =>
            minSize ≤ e.key.size ∧ low ≤ e.key.total ∧ e.key.total ≤ high := by
          rw [hfilter]
          exact List.mem_singleton_self e
        obtain ⟨he, hcond⟩ := List.mem_filter.mp hmem
        obtain ⟨hsize, hlow, hhigh⟩ := of_decide_eq_true hcond
        obtain ⟨hinc, hbelow, hlen, htotal, -⟩ := hw e he
        rw [Nat.zero_add] at hbelow
        exact ⟨hinc, hbelow, hlen ▸ hsize, htotal, hlow, hhigh⟩
    · cases h
      cases hu

end Recon
