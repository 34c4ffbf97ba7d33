import ReconEngine.Matching.Pools
import Mathlib.Data.List.MinMax

/-!
# Exact matching

`ExactMatchingStrategy` pairs transactions with the same reference, amount, currency and
direction. It indexes the internals by this key and lets every external in turn take the candidate
with the nearest booking date.

**The laws** (`exactTurn_stage`, `exactTurn_workable`, `exactRun_keyed`): a turn pairs what it may,
keeps the pools workable, and pairs equal keys only.

**What they do not establish.** That nothing was left over which could have been paired. The stage
as a greedy assignment, with its maximality, is `Matching.ExactSound`.
-/

set_option autoImplicit false

namespace Recon

open Store.Prog hiding pure bind

/-! ## The key -/

structure ExactMatchKey where
  normalisedReference : String
  amountMinor : Int
  currency : String
  direction : Direction
deriving DecidableEq, Repr

/-- `str.isspace` of one character. -/
def pythonBlank (c : Char) : Bool :=
  [0x09, 0x0a, 0x0b, 0x0c, 0x0d, 0x1c, 0x1d, 0x1e, 0x1f, 0x20, 0x85, 0xa0, 0x1680, 0x2000, 0x2001,
    0x2002, 0x2003, 0x2004, 0x2005, 0x2006, 0x2007, 0x2008, 0x2009, 0x200a, 0x2028, 0x2029, 0x202f,
    0x205f, 0x3000].contains c.toNat

/-- The key of a transaction whose reference is not blank. -/
def keyOf (blank : Char → Bool) (t : NormalisedTransaction) : Option ExactMatchKey := do
  let reference ← t.normalisedReference
  if reference.toList.all blank then
    none
  else
    return { normalisedReference := reference, amountMinor := t.amountMinor,
             currency := t.currency, direction := t.direction }

/-- `build_key`: `None` when the reference is missing, empty or stripped to nothing. -/
def buildKey : NormalisedTransaction → Option ExactMatchKey := keyOf pythonBlank

/-! ## The stage -/

structure ExactMatchOutcome where
  matchedCount : Nat := 0
  skippedNoKeyCount : Nat := 0
  skippedClaimConflictCount : Nat := 0
  matchResultIds : List Id := []
deriving DecidableEq, Repr

/-- The dictionary from keys to candidates, as its entries in insertion order. -/
abbrev ExactIndex := List (ExactMatchKey × NormalisedTransaction)

structure ExactState where
  index : ExactIndex
  outcome : ExactMatchOutcome := {}

/-- The index, and how many internals have no key. -/
def buildIndex (internals : List NormalisedTransaction) : ExactIndex × Nat :=
  (internals.filterMap fun t => (buildKey t).map (·, t),
    internals.countP fun t => (buildKey t).isNone)

def ExactIndex.bucket (index : ExactIndex) (key : ExactMatchKey) : List NormalisedTransaction :=
  (index.filter (·.1 = key)).map (·.2)

/-- The candidate with the nearest booking date, the first of several; `none` when there is no
candidate left. -/
def disambiguate (candidates : List NormalisedTransaction) (external : NormalisedTransaction) :
    Option NormalisedTransaction :=
  candidates.argmin fun candidate => (candidate.txnDate - external.txnDate).natAbs

/-- The candidates of an external that a person has not rejected for it. -/
def ExactIndex.allowed (index : ExactIndex) (rejected : List (Id × Id)) (key : ExactMatchKey)
    (external : NormalisedTransaction) : List NormalisedTransaction :=
  (index.bucket key).filter fun c => !rejected.contains (c.id, external.id)

def exactColumns (run : Id) (internal external : NormalisedTransaction) (candidateCount : Nat) :
    MatchColumns where
  runId := .run run
  matchType := .exact
  status := .autoMatched
  confidence := 1000
  internalTransactionId := internal.id
  externalTransactionId := external.id
  candidateCount := candidateCount
  matchedOnDate := external.txnDate

/-- One external probes the index. -/
def exactTurn (run : Id) (rejected : List (Id × Id)) (st : ExactState)
    (external : NormalisedTransaction) : Prog ExactState :=
  match buildKey external with
  | none => return { st with outcome.skippedNoKeyCount := st.outcome.skippedNoKeyCount + 1 }
  | some key =>
    match disambiguate (st.index.allowed rejected key external) external with
    | none => return st
    | some internal => do
      let m := exactColumns run internal external (st.index.bucket key).length
      match ← recordPair m with
      | none =>
        let conflicts := st.outcome.skippedClaimConflictCount + 1
        return { st with outcome.skippedClaimConflictCount := conflicts }
      | some id =>
        markMatched m
        let outcome : ExactMatchOutcome :=
          { st.outcome with
            matchedCount := st.outcome.matchedCount + 1
            matchResultIds := st.outcome.matchResultIds ++ [id] }
        -- The internal is consumed: no later external with this key can take it again.
        return { index := st.index.erase (key, internal), outcome := outcome }

/-- `ExactMatchingStrategy.run`. -/
def exactRun (run : Id) (internals externals : List NormalisedTransaction) :
    Prog ExactMatchOutcome :=
  levelOn internals externals fun rejected => do
    let (index, skipped) := buildIndex internals
    let st ← externals.foldlM (exactTurn run rejected)
      { index := index, outcome := { skippedNoKeyCount := skipped } }
    return st.outcome

/-! ## What the stage keeps -/

/-- The candidates in the index are internals of the pool. -/
def ExactState.Within (internals : List NormalisedTransaction) (st : ExactState) : Prop :=
  ∀ p ∈ st.index, p.2 ∈ internals

/-- The candidate an external takes is in the index and was not rejected for it. -/
theorem mem_of_disambiguate {index : ExactIndex} {rejected : List (Id × Id)} {key : ExactMatchKey}
    {external internal : NormalisedTransaction}
    (h : disambiguate (index.allowed rejected key external) external = some internal) :
    (key, internal) ∈ index ∧ (internal.id, external.id) ∉ rejected := by
  have hmem := List.argmin_mem h
  obtain ⟨hbucket, hrejected⟩ := List.mem_filter.mp hmem
  obtain ⟨⟨k, t⟩, ht, rfl⟩ := List.mem_map.mp hbucket
  obtain ⟨hindex, hkey⟩ := List.mem_filter.mp ht
  refine ⟨?_, by simpa using hrejected⟩
  have hk : k = key := of_decide_eq_true hkey
  exact hk ▸ hindex

theorem exactColumns_autoPair (run : Id) (internal external : NormalisedTransaction) (count : Nat) :
    (exactColumns run internal external count).AutoPair := ⟨rfl, rfl⟩

theorem buildIndex_within (internals : List NormalisedTransaction) (skipped : Nat) :
    ExactState.Within internals
      { index := (buildIndex internals).1, outcome := { skippedNoKeyCount := skipped } } := by
  intro p hp
  obtain ⟨t, ht, hkey⟩ := List.mem_filterMap.mp hp
  obtain ⟨k, -, rfl⟩ := Option.map_eq_some_iff.mp hkey
  exact ht

section

variable {run : Id} {internals externals : List NormalisedTransaction} {rejected : List (Id × Id)}
  {st : ExactState} {external : NormalisedTransaction}

/-- A turn pairs what it may, and leaves the index within the pool. -/
theorem exactTurn_stage (hst : st.Within internals) (he : external ∈ externals) :
    (exactTurn run rejected st external).Work
        (LevelWrite (Proposed (·.AutoPair) internals externals rejected)) ∧
      (exactTurn run rejected st external).Returns (ExactState.Within internals) := by
  unfold exactTurn
  split
  · exact ⟨work_pure _, hst⟩
  · split
    · exact ⟨work_pure _, hst⟩
    · rename_i key _ _ internal hchoice
      obtain ⟨hindex, hrejected⟩ := mem_of_disambiguate hchoice
      have hpair := exactColumns_autoPair run internal external (st.index.bucket key).length
      constructor
      · refine Work.bind (recordPair_level ⟨hpair, hpair.stands,
          List.mem_map_of_mem (hst _ hindex), List.mem_map_of_mem he, hrejected⟩) fun id => ?_
        cases id with
        | none => exact work_pure _
        | some id => exact Work.bind markMatched_level fun _ => work_pure _
      · refine (returns_true _).bind fun id _ => ?_
        cases id with
        | none => exact hst
        | some id =>
          exact (returns_true _).bind fun _ _ p hp => hst p (List.mem_of_mem_erase hp)

/-- A turn keeps the pools workable. -/
theorem exactTurn_workable {s : Session} (hst : st.Within internals) (he : external ∈ externals)
    (h : Workable (ids internals ++ ids externals) [] s.supply s.view) :
    (exactTurn run rejected st external).wp
      (fun st' s' => st'.Within internals ∧
        Workable (ids internals ++ ids externals) [] s'.supply s'.view)
      (fun _ _ => True) s := by
  unfold exactTurn
  split
  · exact ⟨hst, h⟩
  · split
    · exact ⟨hst, h⟩
    · rename_i key _ _ internal hchoice
      have hindex := (mem_of_disambiguate hchoice).1
      rw [bind_eq, wp_bind]
      refine (recordPair_workable h (List.mem_append_left _ (List.mem_map_of_mem (hst _ hindex)))
        (List.mem_append_right _ (List.mem_map_of_mem he)) (exactColumns_autoPair _ _ _ _).stands).mono ?_
        fun _ _ _ => trivial
      rintro (_ | id) s' h'
      · exact ⟨hst, h'⟩
      · refine wp_bind.mpr ?_
        refine (markMatched_workable h').mono ?_ fun _ _ _ => trivial
        exact fun _ s'' h'' => ⟨fun p hp => hst p (List.mem_of_mem_erase hp), h''⟩

/-- The stage keeps to its pools and to the rejections. -/
theorem exactRun_onPools (run : Id) (internals externals : List NormalisedTransaction) :
    OnPools (·.AutoPair) internals externals (exactRun run internals externals) :=
  Or.inr ⟨_, rfl, fun _ => Work.bind
    (Work.foldlM_returns externals _ (buildIndex_within internals _)
      fun _ hst _ he => exactTurn_stage hst he).1 fun _ => work_pure _⟩

theorem exactRun_workable {s : Session}
    (h : Workable (ids internals ++ ids externals) [] s.supply s.view) :
    (exactRun run internals externals).wp
      (fun _ s' => Workable (ids internals ++ ids externals) [] s'.supply s'.view)
      (fun _ _ => True) s := by
  simp only [exactRun, bind_eq, wp_bind, wp_levelOn]
  refine (wp_foldlM (I := fun st s => st.Within internals ∧
    Workable (ids internals ++ ids externals) [] s.supply s.view) externals ?_ _ s
    ⟨buildIndex_within internals _, h⟩).mono ?_ fun _ _ h => h
  · exact fun external he st s hs => exactTurn_workable hs.1 he hs.2
  · exact fun st s' hs => hs.2

end

/-! ## Keys -/

/-- Every entry of the index is an internal of the pool under its own key. -/
def ExactState.Keyed (internals : List NormalisedTransaction) (st : ExactState) : Prop :=
  ∀ p ∈ st.index, p.2 ∈ internals ∧ buildKey p.2 = some p.1

theorem buildIndex_keyed (internals : List NormalisedTransaction) (skipped : Nat) :
    ExactState.Keyed internals
      { index := (buildIndex internals).1, outcome := { skippedNoKeyCount := skipped } } := by
  intro p hp
  obtain ⟨t, ht, hkey⟩ := List.mem_filterMap.mp hp
  obtain ⟨k, hk, rfl⟩ := Option.map_eq_some_iff.mp hkey
  exact ⟨ht, hk⟩

section

variable {W : RowWrite → Prop} {run : Id} {internals externals : List NormalisedTransaction}

/-- The rows of the stage, apart from its claims and statuses: one for an internal and an external
of the pools that have the same key. -/
def WritesKeyPairs (W : RowWrite → Prop) (run : Id)
    (internals externals : List NormalisedTransaction) : Prop :=
  ∀ internal ∈ internals, ∀ external ∈ externals, ∀ key, buildKey internal = some key →
    buildKey external = some key →
      ∀ count id, W (.insertResult { exactColumns run internal external count with id := id })

theorem exactTurn_keyed {rejected : List (Id × Id)} {st : ExactState}
    {external : NormalisedTransaction} (hclaim : ∀ c, W (.insertClaim c))
    (hset : ∀ c r, W (.claimResult c r)) (hmark : ∀ t, W (.transactionStatus t .matched))
    (hresult : WritesKeyPairs W run internals externals) (hst : st.Keyed internals)
    (he : external ∈ externals) :
    (exactTurn run rejected st external).Work W ∧
      (exactTurn run rejected st external).Returns (ExactState.Keyed internals) := by
  unfold exactTurn
  split
  · exact ⟨work_pure _, hst⟩
  · rename_i key hkey
    split
    · exact ⟨work_pure _, hst⟩
    · rename_i internal hchoice
      obtain ⟨hin, hown⟩ := hst _ (mem_of_disambiguate hchoice).1
      constructor
      · apply Work.bind
        · exact recordPair_work hclaim hset (hresult internal hin external he key hown hkey _)
        · intro id
          cases id with
          | none => exact work_pure _
          | some id => exact Work.bind (markAll_work hmark _) fun _ => work_pure _
      · apply (returns_true _).bind
        intro id _
        cases id with
        | none => exact hst
        | some id =>
          exact (returns_true _).bind fun _ _ p hp => hst p (List.mem_of_mem_erase hp)

/-- The stage pairs equal keys only. -/
theorem exactRun_keyed (hclaim : ∀ c, W (.insertClaim c)) (hset : ∀ c r, W (.claimResult c r))
    (hmark : ∀ t, W (.transactionStatus t .matched))
    (hresult : WritesKeyPairs W run internals externals) :
    (exactRun run internals externals).Work W :=
  level_work fun _ => Work.bind
    (Work.foldlM_returns externals _ (buildIndex_keyed internals _)
      fun _ hst _ he => exactTurn_keyed hclaim hset hmark hresult hst he).1 fun _ => work_pure _

end

end Recon
