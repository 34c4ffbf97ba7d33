import ReconEngine.Matching.ExactChoices
import ReconEngine.Matching.Orchestrator
import ReconEngine.Matching.Outline
import ReconEngine.Matching.Review
import ReconEngine.Store.Handler

/-!
# The two exact stages agree

Running the set-based statement and then the Python stage on what it leaves makes the matches that
the Python stage makes alone, from as many candidates each. Both write pairs and nothing else, so
a store is compared by what it gained: its matches, their claims and the new statuses. What the
statement takes is what the Python stage chooses under the keys with one row on each side, and it
leaves the other keys as they were.

**The law** (`exactStages_agree`): for every pool the statement followed by the Python stage gains
what the Python stage gains alone, as a list up to order. The references of a pool have no
separators that Python strips and SQL does not.

**What it does not establish.** Anything about the ASCII separators, which one side takes for
blanks: `separator_paired` is a pair that only the statement makes. Row identifiers and the order of
audit entries differ between the two ways, and are not compared.
-/

set_option autoImplicit false

namespace Recon

open Store (updateIn)
open Store.Prog hiding pure bind

/-! ## What a store gains -/

/-- A claim by what it says; its match is named by what is written of it. -/
structure ClaimedSide where
  transaction : Id
  role : ClaimRole
  status : ClaimStatus
  result : Option MatchColumns
deriving DecidableEq

/-- What a claim says, where `find` finds the matches. -/
def claimedSide (find : Id → Option MatchResult) (c : MatchClaim) : ClaimedSide :=
  ⟨c.normalisedTransactionId, c.role, c.status,
    c.matchResultId.bind fun id => (find id).map (·.toMatchColumns)⟩

def Db.claimed (d : Db) : List ClaimedSide := d.claims.map (claimedSide d.result?)

/-- The ACTIVE claims of a match. -/
def MatchColumns.claimed (m : MatchColumns) : List ClaimedSide :=
  [⟨m.internalTransactionId, .internal, .active, some m⟩,
    ⟨m.externalTransactionId, .external, .active, some m⟩]

/-- The transactions of some matches. -/
def sideIds (ms : List MatchColumns) : List Id :=
  ms.flatMap fun m => [m.internalTransactionId, m.externalTransactionId]

/-- From `d` to `d'` the matches `ms` were written, and nothing else. -/
structure Gains (d d' : Db) (ms : List MatchColumns) : Prop where
  results : d'.results.map (·.toMatchColumns) = d.results.map (·.toMatchColumns) ++ ms
  claims : d'.claimed = d.claimed ++ ms.flatMap (·.claimed)
  transactions : d'.transactions = (d.setStatus .matched (sideIds ms)).transactions

/-- The stores hold the same matches, from as many candidates, the same claims and the same
transactions, whatever the order and the identifiers of the matches and claims. -/
structure SameMatches (d d' : Db) : Prop where
  results : (d.results.map (·.toMatchColumns)).Perm (d'.results.map (·.toMatchColumns))
  claims : d.claimed.Perm d'.claimed
  transactions : d.transactions = d'.transactions

section

variable {d d' d'' : Db} {ms ms' : List MatchColumns}

theorem sideIds_append (ms ms' : List MatchColumns) :
    sideIds (ms ++ ms') = sideIds ms ++ sideIds ms' := List.flatMap_append

/-- Whether a transaction is claimed can be told from the claims without their identifiers. -/
theorem Db.isClaimed_iff_claimed (d : Db) (t : Id) :
    d.isClaimed t = true ↔ ∃ c ∈ d.claimed, c.status = .active ∧ c.transaction = t := by
  rw [Db.isClaimed_eq_true, Db.claimed]
  simp [claimedSide]

theorem Db.rejected_iff_columns (d : Db) (i e : Id) :
    d.Rejected i e ↔ ∃ m ∈ d.results.map (·.toMatchColumns), m.status = .rejected ∧
      m.internalTransactionId = i ∧ m.externalTransactionId = e := by
  unfold Db.Rejected
  simp

theorem Gains.nothing (d : Db) : Gains d d [] := by
  constructor
  · exact (List.append_nil _).symm
  · exact (List.append_nil _).symm
  · show d.transactions = (d.setStatus .matched []).transactions
    rw [Db.setStatus_no_ids]

/-- What is gained in two parts is gained together. -/
theorem Gains.trans (h : Gains d d' ms) (h' : Gains d' d'' ms') : Gains d d'' (ms ++ ms') where
  results := by rw [h'.results, h.results, List.append_assoc]
  claims := by rw [h'.claims, h.claims, List.flatMap_append, List.append_assoc]
  transactions := by
    rw [h'.transactions, sideIds_append, ← Db.setStatus_setStatus]
    show updateIn (·.id) _ _ d'.transactions = updateIn (·.id) _ _ (d.setStatus _ _).transactions
    rw [h.transactions]

/-- The sides of the new matches are claimed, and no other transaction that was not. -/
theorem Gains.isClaimed (h : Gains d d' ms) (t : Id) :
    d'.isClaimed t = true ↔ d.isClaimed t = true ∨ t ∈ sideIds ms := by
  rw [Db.isClaimed_iff_claimed, Db.isClaimed_iff_claimed, h.claims]
  have hside : (∃ c ∈ ms.flatMap (·.claimed), c.status = .active ∧ c.transaction = t) ↔
      t ∈ sideIds ms := by
    simp only [List.mem_flatMap, MatchColumns.claimed, sideIds, List.mem_cons, List.not_mem_nil,
      or_false]
    constructor
    · rintro ⟨c, ⟨m, hm, rfl | rfl⟩, -, rfl⟩
      · exact ⟨m, hm, Or.inl rfl⟩
      · exact ⟨m, hm, Or.inr rfl⟩
    · rintro ⟨m, hm, rfl | rfl⟩
      · exact ⟨_, ⟨m, hm, Or.inl rfl⟩, rfl, rfl⟩
      · exact ⟨_, ⟨m, hm, Or.inr rfl⟩, rfl, rfl⟩
  rw [← hside]
  simp only [List.mem_append, or_and_right, exists_or]

/-- Matches that stand reject nothing. -/
theorem Gains.rejected (h : Gains d d' ms) (hms : ∀ m ∈ ms, m.status ≠ .rejected) (i e : Id) :
    d'.Rejected i e ↔ d.Rejected i e := by
  rw [Db.rejected_iff_columns, Db.rejected_iff_columns, h.results]
  constructor
  · rintro ⟨m, hm, hrejected, hsides⟩
    rcases List.mem_append.mp hm with hm | hm
    · exact ⟨m, hm, hrejected, hsides⟩
    · exact absurd hrejected (hms m hm)
  · rintro ⟨m, hm, hsides⟩
    exact ⟨m, List.mem_append_left _ hm, hsides⟩

/-- Stores that gained the same matches, in whatever order. -/
theorem Gains.same (h : Gains d d' ms) (h' : Gains d d'' ms') (hms : ms.Perm ms') :
    SameMatches d' d'' where
  results := by
    rw [h.results, h'.results]
    exact hms.append_left _
  claims := by
    rw [h.claims, h'.claims]
    exact (hms.flatMap_right _).append_left _
  transactions := by
    rw [h.transactions, h'.transactions]
    exact congrArg Db.transactions
      (Db.setStatus_congr .matched d fun t => (hms.flatMap_right _).mem_iff)

/-! ## What writing pairs gains -/

/-- The claims of some sides, by what they say. -/
theorem claimedSide_claimRows (find : Id → Option MatchResult) :
    ∀ (k : Nat) (sides : List ClaimSide),
      (claimRows k sides).map (claimedSide find) = sides.map fun side =>
        ⟨side.transaction, side.role, .active,
          side.result.bind fun id => (find id).map (·.toMatchColumns)⟩
  | _, [] => rfl
  | k, _ :: sides => congrArg (_ :: ·) (claimedSide_claimRows find (k + 1) sides)

/-- The claims of some rows, where the rows are found. -/
theorem claimed_claimSides {find : Id → Option MatchResult} {rows : List MatchResult}
    (h : ∀ r ∈ rows, find r.id = some r) (k : Nat) :
    (claimRows k (claimSides rows)).map (claimedSide find) = rows.flatMap (·.claimed) := by
  rw [claimedSide_claimRows, claimSides, List.map_flatMap]
  refine List.flatMap_congr fun r hr => ?_
  simp only [List.map_cons, List.map_nil, Option.bind_some, h r hr, Option.map_some,
    MatchColumns.claimed]

/-- New matches do not change what the old claims say. -/
theorem claimed_links {n : Nat} (h : Identified n d) {rows : List MatchResult}
    (hrows : ∀ r ∈ rows, n ≤ r.id) :
    d.claims.map (claimedSide fun id => (d.result? id).or (rows.find? (·.id = id))) = d.claimed := by
  refine List.map_congr_left fun c hc => ?_
  unfold claimedSide
  cases hid : c.matchResultId with
  | none => rfl
  | some id =>
    have hnone : rows.find? (·.id = id) = none := by
      rw [List.find?_eq_none]
      intro r hr
      have hlt := Nat.lt_of_lt_of_le (h.linkBelow c hc id hid) (hrows r hr)
      simpa using Nat.ne_of_gt hlt
    simp only [Option.bind_some, hnone, Option.or_none]

/-- A new match is found under its identifier. -/
theorem find_resultRows {n first : Nat} (h : Identified n d) (hn : n ≤ first) {r : MatchResult}
    (hr : r ∈ resultRows first ms) :
    (d.result? r.id).or ((resultRows first ms).find? (·.id = r.id)) = some r := by
  have hold : d.result? r.id = none := by
    refine List.find?_eq_none.mpr fun old hmem => ?_
    have hge := (mem_resultRows hr).2.1
    simpa using Nat.ne_of_lt (Nat.lt_of_lt_of_le (h.resultBelow old hmem) (hn.trans hge))
  rw [hold, Option.none_or]
  cases hfound : (resultRows first ms).find? (·.id = r.id) with
  | none => exact absurd (List.find?_eq_none.mp hfound r hr) (by simp)
  | some r' =>
    have hid : r'.id = r.id := by simpa using List.find?_some hfound
    rw [List.inj_on_of_nodup_map (resultRows_nodup first ms) (List.mem_of_find?_eq_some hfound) hr
      hid]

/-- The rows of some pairs, with their statuses. -/
theorem gains_of_record {n first : Nat} (h : Identified n d) (hn : n ≤ first) (k : Nat)
    (ms : List MatchColumns) :
    Gains d ((d.record (resultRows first ms)
      (claimRows k (claimSides (resultRows first ms)))).setStatus .matched (sideIds ms)) ms := by
  constructor
  · show (d.results ++ resultRows first ms).map _ = _
    rw [List.map_append, map_resultRows (fun m => m), List.map_id']
  · have hfind : Db.result? ((d.record (resultRows first ms)
        (claimRows k (claimSides (resultRows first ms)))).setStatus .matched (sideIds ms)) =
          fun id => (d.result? id).or ((resultRows first ms).find? (·.id = id)) :=
      funext fun _ => List.find?_append
    show (d.claims ++ claimRows k (claimSides (resultRows first ms))).map (claimedSide _) = _
    rw [hfind, List.map_append,
      claimed_links h fun r hr => hn.trans (mem_resultRows hr).2.1,
      claimed_claimSides fun r hr => find_resultRows h hn hr,
      flatMap_resultRows MatchColumns.claimed]
  · rfl

/-! ## The stages as gains -/

/-- The transactions of the pairs are distinct and unclaimed. -/
def Db.Open (d : Db) (ms : List MatchColumns) : Prop :=
  (sideIds ms).Nodup ∧ ∀ t ∈ sideIds ms, d.isClaimed t = false

/-- Writing some pairs leaves the others open. -/
theorem Gains.rest (h : Gains d d' ms) (hopen : d.Open (ms ++ ms')) : d'.Open ms' := by
  obtain ⟨hnodup, hfree⟩ := hopen
  rw [sideIds_append] at hnodup hfree
  obtain ⟨-, hrest, hdisjoint⟩ := List.nodup_append.mp hnodup
  refine ⟨hrest, fun t ht => ?_⟩
  rw [← Bool.not_eq_true, h.isClaimed, not_or, Bool.not_eq_true]
  exact ⟨hfree t (List.mem_append_right _ ht), fun hin => hdisjoint t hin t ht rfl⟩

/-- The sides of the next pair are free. -/
theorem Db.Open.free {m : MatchColumns} (h : d.Open (m :: ms)) : d.Free (m.sides none) := by
  obtain ⟨hnodup, hfree⟩ := h
  constructor
  · exact (List.nodup_append.mp hnodup).1
  · intro side hside
    simp only [MatchColumns.sides, List.mem_cons, List.not_mem_nil, or_false] at hside
    rcases hside with rfl | rfl
    · exact hfree _ (List.mem_append_left _ List.mem_cons_self)
    · exact hfree _ (List.mem_append_left _ (List.mem_cons_of_mem _ List.mem_cons_self))

variable {rejected : List (Id × Id)} {run : Id}

/-- The turns of the exact stage write its choices, where their sides are open. -/
theorem exactTurns_gain (run : Id) (rejected : List (Id × Id)) :
    ∀ (externals : List NormalisedTransaction) (st : ExactState) (s : Session),
      Identified s.supply s.view →
      s.view.Open ((exactChoices rejected st.index externals).map (·.columns run)) →
      (externals.foldlM (exactTurn run rejected) st).wp
        (fun _ s' => Gains s.view s'.view
          ((exactChoices rejected st.index externals).map (·.columns run)))
        (fun _ _ => False) s := by
  intro externals
  induction externals with
  | nil => exact fun st s _ _ => Gains.nothing s.view
  | cons external externals ih =>
    intro st s h hopen
    rw [List.foldlM_cons, bind_eq, wp_bind]
    unfold exactTurn
    cases hkey : buildKey external with
    | none =>
      rw [exactChoices_keyless hkey] at hopen ⊢
      exact ih _ s h hopen
    | some key =>
      dsimp only
      cases hchoice : disambiguate (st.index.allowed rejected key external) external with
      | none =>
        rw [exactChoices_pass hkey hchoice] at hopen ⊢
        exact ih st s h hopen
      | some internal =>
        rw [exactChoices_take hkey hchoice, List.map_cons] at hopen ⊢
        dsimp only
        rw [bind_eq, wp_bind]
        refine (recordPair_outline _ h).and (recordPair_spec _ s h.claimBelow) |>.mono ?_
          fun _ _ h => h.1
        rintro (_ | id) s' ⟨⟨hidentified, -⟩, hsupply, hout⟩
        · exact absurd hopen.free hout.1
        obtain ⟨-, rfl, -, hview⟩ := hout
        refine wp_bind.mpr ((markAll_outline _ hidentified).and (markAll_spec _ s') |>.mono ?_
          fun _ _ h => h.1)
        rintro _ s'' ⟨⟨hidentified', -⟩, hmarked, -⟩
        have hgain : Gains s.view s''.view [exactColumns run internal external
            (st.index.bucket key).length] := by
          rw [hmarked, hview]
          exact gains_of_record h (Nat.le_add_right _ 2) s.supply
            [exactColumns run internal external (st.index.bucket key).length]
        have hrest : s''.view.Open ((exactChoices rejected (st.index.erase (key, internal))
            externals).map (·.columns run)) := hgain.rest hopen
        refine (ih _ s'' hidentified' hrest).mono ?_ fun _ _ h => h
        exact fun _ _ h => hgain.trans h

/-- What the exact stage chooses in a store. -/
def Db.exactChoices (d : Db) (bankCode : String) (range : DateRange) : List ExactChoice :=
  Recon.exactChoices (d.rejectedPairs (ids (d.findUnmatched bankCode .internal range)))
    (buildIndex (d.findUnmatched bankCode .internal range)).1
    (d.findUnmatched bankCode .external range)

/-- What the statement chooses. -/
def Db.setBasedChoices (d : Db) (bankCode : String) (range : DateRange) : List ExactChoice :=
  (setBasedAllowed d bankCode range).map fun p => ⟨p.1, p.2, 1⟩

variable {bankCode : String} {range : DateRange}

theorem buildIndex_snd (internals : List NormalisedTransaction) :
    ((buildIndex internals).1.map Prod.snd).Sublist internals := by
  unfold buildIndex
  induction internals with
  | nil => exact List.Sublist.refl _
  | cons t internals ih =>
    dsimp only at ih ⊢
    cases hkey : buildKey t with
    | none =>
      rw [List.filterMap_cons_none (by rw [hkey]; rfl)]
      exact ih.cons t
    | some key =>
      rw [List.filterMap_cons_some (b := (key, t)) (by rw [hkey]; rfl)]
      exact ih.cons_cons t

/-- The choices of the exact stage are open. -/
theorem Db.exactChoices_open (hids : (ids d.transactions).Nodup) (run : Id) :
    d.Open ((d.exactChoices bankCode range).map (·.columns run)) := by
  have hinternals : ((d.exactChoices bankCode range).map (·.internal)).Subperm
      (d.findUnmatched bankCode .internal range) :=
    (exactChoices_internals _ _ _).trans (buildIndex_snd _).subperm
  have hexternals : ((d.exactChoices bankCode range).map (·.external)).Sublist
      (d.findUnmatched bankCode .external range) := exactChoices_externals _ _ _
  have hrow : ∀ source, ∀ t ∈ d.findUnmatched bankCode source range,
      t ∈ d.transactions ∧ t.source = source ∧ d.isClaimed t.id = false := fun source t ht =>
    have hmem := Db.mem_findUnmatched.mp ht
    have hav := Db.available_iff.mp hmem.2
    ⟨hmem.1, hav.2.1, hav.2.2.2.1⟩
  have hperm := List.map_append_flatMap_perm (d.exactChoices bankCode range)
    (fun c => c.internal.id) fun c => [c.external.id]
  rw [← List.map_eq_flatMap] at hperm
  have hsides : (sideIds ((d.exactChoices bankCode range).map (·.columns run))).Perm
      (ids ((d.exactChoices bankCode range).map (·.internal)) ++
        ids ((d.exactChoices bankCode range).map (·.external))) := by
    unfold sideIds ids
    rw [List.flatMap_map, List.map_map, List.map_map]
    exact hperm.symm
  constructor
  · rw [hsides.nodup_iff]
    refine List.nodup_append.mpr ⟨?_, ?_, ?_⟩
    · obtain ⟨part, hpart, hsub⟩ := hinternals
      exact (hpart.map _).nodup_iff.mp
        ((findUnmatched_nodup bankCode range hids .internal).sublist (hsub.map _))
    · exact (findUnmatched_nodup bankCode range hids .external).sublist (hexternals.map _)
    · rintro i hi e he rfl
      obtain ⟨t, ht, rfl⟩ := List.mem_map.mp hi
      obtain ⟨t', ht', hid⟩ := List.mem_map.mp he
      obtain ⟨hmem, hsource, -⟩ := hrow _ t (hinternals.subset ht)
      obtain ⟨hmem', hsource', -⟩ := hrow _ t' (hexternals.subset ht')
      have hsame := List.inj_on_of_nodup_map hids hmem' hmem hid
      rw [hsame, hsource] at hsource'
      cases hsource'
  · intro t ht
    rcases List.mem_append.mp (hsides.mem_iff.mp ht) with ht | ht
    · obtain ⟨row, hmem, rfl⟩ := List.mem_map.mp ht
      exact (hrow _ row (hinternals.subset hmem)).2.2
    · obtain ⟨row, hmem, rfl⟩ := List.mem_map.mp ht
      exact (hrow _ row (hexternals.subset hmem)).2.2

/-- The exact stage writes what it chooses. -/
theorem exactStage_gains (o : Orchestrator) (bankCode : String) (s : Session)
    (hids : (ids s.view.transactions).Nodup) (h : Identified s.supply s.view) :
    (o.exactStage bankCode).wp
      (fun _ s' => Gains s.view s'.view
        ((s.view.exactChoices bankCode o.range).map (·.columns o.run)))
      (fun _ _ => False) s := by
  unfold Orchestrator.exactStage
  simp only [bind_eq, wp_bind, wp_pools, exactRun, wp_levelOn]
  have hopen : s.view.Open ((s.view.exactChoices bankCode o.range).map (·.columns o.run)) :=
    Db.exactChoices_open hids o.run
  unfold Db.exactChoices at hopen ⊢
  refine (exactTurns_gain o.run _ _ _ s h hopen).mono ?_ fun _ _ h => h
  exact fun _ _ h => h

/-- The set-based statement writes what it chooses. -/
theorem setBasedRun_gains (run : Id) (bankCode : String) (range : DateRange) (s : Session)
    (hids : (ids s.view.transactions).Nodup) (h : Identified s.supply s.view) :
    (setBasedRun run bankCode range).wp
      (fun _ s' => Identified s'.supply s'.view ∧ Gains s.view s'.view
        ((s.view.setBasedChoices bankCode range).map (·.columns run)))
      (fun _ _ => False) s := by
  have hcolumns : (s.view.setBasedChoices bankCode range).map (·.columns run) =
      setBasedColumns run s.view bankCode range := by
    unfold Db.setBasedChoices setBasedColumns
    rw [List.map_map]
    rfl
  have hsides : ∀ t, t ∈ setBasedIds s.view bankCode range ↔
      t ∈ sideIds (setBasedColumns run s.view bankCode range) := by
    intro t
    rw [sideIds, setBasedColumns_sides, mem_setBasedIds, List.mem_flatMap]
    simp only [List.mem_cons, List.not_mem_nil, or_false]
  refine (setBasedRun_spec run bankCode range hids).mono ?_ fun _ _ h => h
  rintro _ s' ⟨hview, hsupply⟩
  rw [hview, hsupply, hcolumns, Db.setStatus_congr .matched _ hsides]
  constructor
  · exact (h.batch (Nat.le_add_right _ _) (by omega) (by omega)).setStatus _
  · exact gains_of_record h (Nat.le_refl _) _ _

/-! ## What the statement leaves -/

/-- Two rows of one rank are one row. -/
theorem eq_of_poolRank (hids : (ids d.transactions).Nodup) {a b : NormalisedTransaction}
    (ha : a ∈ d.transactions) (hb : b ∈ d.transactions) (hab : a.poolRank ≤ b.poolRank)
    (hba : b.poolRank ≤ a.poolRank) : a = b := by
  have hrank : a.lineRank = b.lineRank :=
    congrArg (fun r : Date ×ₗ (Bool ×ₗ Int) ×ₗ Id => (ofLex r).2) (le_antisymm hab hba)
  exact List.inj_on_of_nodup_map hids ha hb
    (congrArg (fun r : (Bool ×ₗ Int) ×ₗ Id => (ofLex r).2) hrank)

/-- The new matches leave the pool, and nothing else does. -/
theorem Gains.findUnmatched (h : Gains d d' ms) (hids : (ids d.transactions).Nodup)
    (bankCode : String) (source : Source) (range : DateRange) :
    d'.findUnmatched bankCode source range =
      (d.findUnmatched bankCode source range).filter fun t => t.id ∉ sideIds ms := by
  have hrows : d'.transactions.filter (d'.available bankCode source range) =
      (d.transactions.filter (d.available bankCode source range)).filter fun t =>
        t.id ∉ sideIds ms := by
    have havailable : ∀ t ∈ d.transactions,
        d'.available bankCode source range
            (if t.id ∈ sideIds ms then { t with matchStatus := .matched } else t) =
          (decide (t.id ∉ sideIds ms) && d.available bankCode source range t) := by
      intro t _
      by_cases hside : t.id ∈ sideIds ms
      · simp [hside, Db.available]
      · have hclaimed : d'.isClaimed t.id = d.isClaimed t.id := by
          rw [Bool.eq_iff_iff, h.isClaimed, or_iff_left hside]
        simp [hside, Db.available, hclaimed]
    rw [h.transactions]
    show (updateIn (·.id) (sideIds ms) _ d.transactions).filter _ = _
    unfold updateIn
    rw [List.filter_map, List.filter_filter]
    show (d.transactions.filter fun t => d'.available bankCode source range
      (if t.id ∈ sideIds ms then { t with matchStatus := .matched } else t)).map _ = _
    rw [List.filter_congr havailable]
    refine (List.map_congr_left fun t ht => if_neg ?_).trans (List.map_id' _)
    have hout := (List.mem_filter.mp ht).2
    simp only [Bool.and_eq_true, decide_eq_true_eq] at hout
    exact hout.1
  have hperm : (d'.findUnmatched bankCode source range).Perm
      ((d.findUnmatched bankCode source range).filter fun t => t.id ∉ sideIds ms) := by
    unfold Db.findUnmatched
    refine (List.perm_insertionSort _ _).trans ?_
    rw [hrows]
    exact (List.perm_insertionSort _ _).symm.filter _
  refine hperm.eq_of_pairwise ?_ (findUnmatched_sorted d' bankCode source range)
    ((findUnmatched_sorted d bankCode source range).filter _)
  intro a b ha hb hab hba
  have hmem : ∀ t ∈ d.findUnmatched bankCode source range, t ∈ d.transactions :=
    fun t ht => (Db.mem_findUnmatched.mp ht).1
  refine eq_of_poolRank hids (hmem a ?_) (hmem b (List.mem_of_mem_filter hb)) hab hba
  exact List.mem_of_mem_filter (hperm.subset ha)

/-! ## The choices of both stages -/

/-- No reference of the bank has a blank that the statement does not know. -/
def Db.PlainBlanks (d : Db) (bankCode : String) : Prop :=
  ∀ t ∈ d.transactions, t.bankCode = bankCode → ∀ reference, t.normalisedReference = some reference →
    ∀ c ∈ reference.toList, pythonBlank c = true → sqlBlank c = true

/-- Then both stages see the same keys. -/
theorem Db.PlainBlanks.keyOf (h : d.PlainBlanks bankCode) {t : NormalisedTransaction}
    (ht : t ∈ d.transactions) (hbank : t.bankCode = bankCode) :
    keyOf sqlBlank t = buildKey t := by
  cases hkey : buildKey t with
  | some key => exact keyOf_sqlBlank hkey
  | none =>
    unfold buildKey Recon.keyOf at hkey
    unfold Recon.keyOf
    cases href : t.normalisedReference with
    | none => rfl
    | some reference =>
      simp only [href, Option.bind_eq_bind, Option.bind_some] at hkey ⊢
      by_cases hall : reference.toList.all pythonBlank = true
      · have hsql : reference.toList.all sqlBlank = true :=
          List.all_eq_true.mpr fun c hc =>
            h t ht hbank reference href c hc (List.all_eq_true.mp hall c hc)
        rw [if_pos hsql]
      · rw [if_neg hall] at hkey
        cases hkey

/-- The rows of a pool with the key of a pair are those of its key group. -/
theorem keyed_perm (hblank : d.PlainBlanks bankCode) {t : NormalisedTransaction}
    {key : ExactMatchKey} (hkey : Recon.keyOf sqlBlank t = some key) (source : Source) :
    ((d.findUnmatched bankCode source range).filter fun u => buildKey u = some key).Perm
      (keyGroup (setBasedPool d bankCode range) source t) := by
  unfold Db.findUnmatched keyGroup setBasedPool
  refine ((List.perm_insertionSort _ _).filter _).trans (List.Perm.of_eq ?_)
  rw [List.filter_filter, List.filter_filter]
  refine List.filter_congr fun u hu => ?_
  by_cases hbank : u.bankCode = bankCode
  · rw [hkey, hblank.keyOf hu hbank, Bool.eq_iff_iff]
    simp only [Db.available, hbank, Bool.and_eq_true, decide_eq_true_eq, beq_iff_eq,
      Bool.not_eq_true']
    constructor
    · rintro ⟨hown, ⟨⟨⟨-, hsource⟩, hstatus⟩, hfree⟩, hrange⟩
      exact ⟨⟨hown, hsource⟩, ⟨⟨⟨trivial, hstatus⟩, by rw [hown]; rfl⟩, hrange⟩, hfree⟩
    · rintro ⟨⟨hown, hsource⟩, ⟨⟨⟨-, hstatus⟩, -⟩, hrange⟩, hfree⟩
      exact ⟨hown, ⟨⟨⟨trivial, hsource⟩, hstatus⟩, hfree⟩, hrange⟩
  · simp [Db.available, hbank]

/-- A pair of the statement is all there is under its key. -/
theorem setBased_keyed (hblank : d.PlainBlanks bankCode)
    {p : NormalisedTransaction × NormalisedTransaction}
    (hp : p ∈ setBasedAllowed d bankCode range) :
    ∃ key, buildKey p.1 = some key ∧ buildKey p.2 = some key ∧
      ((d.findUnmatched bankCode .internal range).filter fun u => buildKey u = some key) = [p.1] ∧
      ((d.findUnmatched bankCode .external range).filter fun u => buildKey u = some key) = [p.2] := by
  obtain ⟨i, e⟩ := p
  have hpair := (mem_setBasedAllowed.mp hp).1
  obtain ⟨hi, -, hint, hext⟩ := mem_setBasedPairs.mp hpair
  obtain ⟨he, hsame, -⟩ := external_of_mem_setBasedPairs hpair
  obtain ⟨hirow, hibank, -, hisome, -⟩ := mem_setBasedPool.mp hi
  obtain ⟨herow, hebank, -⟩ := mem_setBasedPool.mp he
  obtain ⟨key, hkey⟩ := Option.isSome_iff_exists.mp hisome
  refine ⟨key, ?_, ?_, ?_, ?_⟩
  · rw [← hblank.keyOf hirow hibank]
    exact hkey
  · rw [← hblank.keyOf herow hebank, hsame]
    exact hkey
  · exact List.perm_singleton.mp (hint ▸ keyed_perm hblank hkey .internal)
  · exact List.perm_singleton.mp (hext ▸ keyed_perm hblank hkey .external)

/-- Under the key of one of its pairs the statement chooses that pair. -/
theorem setBasedChoices_keyed (hids : (ids d.transactions).Nodup)
    (hblank : d.PlainBlanks bankCode) {p : NormalisedTransaction × NormalisedTransaction}
    (hp : p ∈ setBasedAllowed d bankCode range) {key : ExactMatchKey}
    (hkey : buildKey p.2 = some key) :
    (d.setBasedChoices bankCode range).filter (fun c => buildKey c.external = some key) =
      [⟨p.1, p.2, 1⟩] := by
  have hnodup : (setBasedAllowed d bankCode range).Nodup :=
    (setBasedPairs_nodup ((List.Nodup.of_map _ hids).filter _)).filter _
  have honly : (setBasedAllowed d bankCode range).filter (fun q => buildKey q.2 = some key) =
      [p] := by
    refine List.perm_singleton.mp ((List.perm_ext_iff_of_nodup (hnodup.filter _)
      (List.nodup_singleton p)).mpr fun q => ?_)
    rw [List.mem_filter, List.mem_singleton, decide_eq_true_eq]
    constructor
    · rintro ⟨hq, hqkey⟩
      obtain ⟨own, -, hown, hint, hext⟩ := setBased_keyed hblank hp
      obtain ⟨own', -, hown', hint', hext'⟩ := setBased_keyed hblank hq
      obtain rfl : own = own' := Option.some.inj
        ((hown.symm.trans (hkey.trans hqkey.symm)).trans hown')
      exact Prod.ext (List.singleton_inj.mp (hint'.symm.trans hint))
        (List.singleton_inj.mp (hext'.symm.trans hext))
    · rintro rfl
      exact ⟨hp, hkey⟩
  unfold Db.setBasedChoices
  rw [List.filter_map]
  show ((setBasedAllowed d bankCode range).filter fun q => decide (buildKey q.2 = some key)).map _ = _
  rw [honly]
  rfl

/-- The exact stage alone chooses what the statement chooses, and what the exact stage chooses in
the store the statement leaves. -/
theorem exactChoices_perm (hids : (ids d.transactions).Nodup) (hblank : d.PlainBlanks bankCode)
    (hgain : Gains d d' ((d.setBasedChoices bankCode range).map (·.columns run))) :
    (d.exactChoices bankCode range).Perm
      (d.setBasedChoices bankCode range ++ d'.exactChoices bankCode range) := by
  have hsides : ∀ t, t ∈ sideIds ((d.setBasedChoices bankCode range).map (·.columns run)) ↔
      ∃ p ∈ setBasedAllowed d bankCode range, t = p.1.id ∨ t = p.2.id := by
    intro t
    simp only [sideIds, Db.setBasedChoices, List.map_map, List.flatMap_map, List.mem_flatMap,
      Function.comp_apply, ExactChoice.columns, exactColumns, List.mem_cons, List.not_mem_nil,
      or_false]
  have hleft : ∀ source, d'.findUnmatched bankCode source range =
      (d.findUnmatched bankCode source range).filter fun t =>
        t.id ∉ sideIds ((d.setBasedChoices bankCode range).map (·.columns run)) :=
    fun source => hgain.findUnmatched hids bankCode source range
  have hstands : ∀ m ∈ (d.setBasedChoices bankCode range).map (·.columns run),
      m.status ≠ .rejected := by
    intro m hm
    obtain ⟨c, -, rfl⟩ := List.mem_map.mp hm
    exact (exactColumns_autoPair run _ _ _).stands
  rw [List.perm_iff_count]
  intro c
  cases hkey : buildKey c.external with
  | none =>
    -- No choice is made without a key.
    have hall : ∀ c' ∈ d.exactChoices bankCode range ++
        (d.setBasedChoices bankCode range ++ d'.exactChoices bankCode range), c' ≠ c := by
      rintro c' hc' rfl
      have hsome : (buildKey c'.external).isSome = true := by
        rcases List.mem_append.mp hc' with hc' | hc'
        · exact exactChoices_keyed hc'
        · rcases List.mem_append.mp hc' with hc' | hc'
          · obtain ⟨p, hp, rfl⟩ := List.mem_map.mp hc'
            obtain ⟨key, -, hown, -⟩ := setBased_keyed hblank hp
            exact Option.isSome_of_eq_some hown
          · exact exactChoices_keyed hc'
      rw [hkey] at hsome
      cases hsome
    rw [List.count_eq_zero_of_not_mem fun hc => hall c (List.mem_append_left _ hc) rfl,
      List.count_eq_zero_of_not_mem fun hc => hall c (List.mem_append_right _ hc) rfl]
  | some key =>
    have hown : decide (buildKey c.external = some key) = true := decide_eq_true hkey
    have hcount : ∀ cs : List ExactChoice, cs.count c =
        (cs.filter fun c => decide (buildKey c.external = some key)).count c :=
      fun cs => (List.count_filter (p := fun c : ExactChoice =>
        decide (buildKey c.external = some key)) (l := cs) hown).symm
    rw [hcount (d.exactChoices bankCode range), hcount (_ ++ _), List.filter_append]
    refine congrArg (List.count c) ?_
    unfold Db.exactChoices
    rw [exactChoices_under, exactChoices_under, buildIndex_under, buildIndex_under, hleft, hleft,
      List.filter_comm, List.filter_comm (l := d.findUnmatched bankCode .external range)]
    by_cases hpair : ∃ p ∈ setBasedAllowed d bankCode range, buildKey p.2 = some key
    · obtain ⟨p, hp, hpkey⟩ := hpair
      obtain ⟨own, hin, hex, hint, hext⟩ := setBased_keyed hblank hp
      obtain rfl : own = key := Option.some.inj (hex.symm.trans hpkey)
      have hout : ∀ t, t = p.1 ∨ t = p.2 → ¬ decide (t.id ∉ sideIds
          ((d.setBasedChoices bankCode range).map (·.columns run))) = true := by
        intro t ht
        rw [decide_eq_true_eq, not_not, hsides]
        exact ⟨p, hp, ht.imp (congrArg _) (congrArg _)⟩
      have hgone : ∀ t, t = p.1 ∨ t = p.2 → [t].filter (fun t => decide (t.id ∉ sideIds
          ((d.setBasedChoices bankCode range).map (·.columns run)))) = [] :=
        fun t ht => List.filter_cons_of_neg (hout t ht)
      have hno : (p.1.id, p.2.id) ∉ d.rejectedPairs (ids (d.findUnmatched bankCode .internal range)) :=
        fun hmem => (mem_setBasedAllowed.mp hp).2 (Db.mem_rejectedPairs.mp hmem).2
      rw [hint, hext, exactChoices_single hin hex hno, setBasedChoices_keyed hids hblank hp hex,
        hgone p.1 (Or.inl rfl), hgone p.2 (Or.inr rfl)]
      rfl
    · -- The statement leaves this key alone.
      have hkept : ∀ source, ((d.findUnmatched bankCode source range).filter fun u =>
          decide (buildKey u = some key)).filter (fun t => decide (t.id ∉ sideIds
            ((d.setBasedChoices bankCode range).map (·.columns run)))) =
          (d.findUnmatched bankCode source range).filter fun u => decide (buildKey u = some key) := by
        intro source
        refine List.filter_eq_self.mpr fun t ht => decide_eq_true fun hside => ?_
        obtain ⟨hmem, htkey⟩ := List.mem_filter.mp ht
        have hrow := (Db.mem_findUnmatched.mp hmem).1
        obtain ⟨p, hp, hid⟩ := (hsides _).mp hside
        obtain ⟨own, hin, hex, -⟩ := setBased_keyed hblank hp
        obtain ⟨⟨hi, -⟩, he, -⟩ := setBasedAllowed_rows hp
        refine hpair ⟨p, hp, ?_⟩
        rcases hid with hid | hid
        · rw [hex, ← hin, ← List.inj_on_of_nodup_map hids hrow hi hid]
          exact of_decide_eq_true htkey
        · rw [← List.inj_on_of_nodup_map hids hrow he hid]
          exact of_decide_eq_true htkey
      have hnothing : (d.setBasedChoices bankCode range).filter
          (fun c => buildKey c.external = some key) = [] := by
        refine List.filter_eq_nil_iff.mpr fun c hc => ?_
        obtain ⟨p, hp, rfl⟩ := List.mem_map.mp hc
        simpa using fun h => hpair ⟨p, hp, h⟩
      rw [hkept, hkept, hnothing, List.nil_append]
      refine exactChoices_congr fun entry hentry e _ => ?_
      have hin := (buildIndex_snd _).subset (List.mem_map_of_mem (f := Prod.snd) hentry)
      have hin' : entry.2 ∈ d'.findUnmatched bankCode .internal range := by
        rw [← hkept .internal] at hin
        obtain ⟨hkeyed, hout⟩ := List.mem_filter.mp hin
        rw [hleft]
        exact List.mem_filter.mpr ⟨(List.mem_filter.mp hkeyed).1, hout⟩
      rw [Db.mem_rejectedPairs, Db.mem_rejectedPairs, hgain.rejected hstands]
      exact and_congr_left fun _ => iff_of_true (List.mem_map_of_mem (List.mem_filter.mp hin).1)
        (by rw [← hleft]; exact List.mem_map_of_mem hin')

end

/-- **Refinement.** The set-based statement followed by the Python stage on what it leaves, and the
Python stage alone, both succeed, with the same matches from as many candidates, the same claims and
the same transactions, where every blank of a reference of the bank is one of the six that the
statement knows. -/
theorem exactStages_agree (o : Orchestrator) (bankCode : String) (s : Session)
    (hids : (ids s.view.transactions).Nodup) (h : Identified s.supply s.view)
    (hblank : s.view.PlainBlanks bankCode) :
    ∃ out s₁ out' s₂, (o.exactStage bankCode).exec s = (.ok out, s₁) ∧
      ((o.setBasedStage bankCode).bind fun _ => o.exactStage bankCode).exec s = (.ok out', s₂) ∧
      SameMatches s₁.view s₂.view := by
  obtain ⟨out, s₁, hexec, hgain⟩ := (exactStage_gains o bankCode s hids h).succeeds
  have hboth : ((o.setBasedStage bankCode).bind fun _ => o.exactStage bankCode).wp
      (fun _ s₂ => SameMatches s₁.view s₂.view) (fun _ _ => False) s := by
    rw [wp_bind]
    unfold Orchestrator.setBasedStage
    split
    · refine (setBasedRun_gains o.run bankCode o.range s hids h).mono ?_ fun _ _ h => h
      rintro _ s' ⟨hidentified, hset⟩
      have hids' : (ids s'.view.transactions).Nodup := by
        rw [ids, hset.transactions, Db.setStatus_transaction_ids]
        exact hids
      refine (exactStage_gains o bankCode s' hids' hidentified).mono ?_ fun _ _ h => h
      intro _ s₂ hrest
      refine hgain.same (hset.trans hrest) ?_
      rw [← List.map_append]
      exact (exactChoices_perm hids hblank hset).map _
    · refine (exactStage_gains o bankCode s hids h).mono ?_ fun _ _ h => h
      exact fun _ s₂ halone => hgain.same halone (List.Perm.refl _)
  obtain ⟨out', s₂, hexec', hsame⟩ := hboth.succeeds
  exact ⟨out, s₁, out', s₂, hexec, hexec', hsame⟩

/-! Two payments of one key on each side, and one pair with a key of its own. -/

def threePairs : Session where
  committed :=
    { transactions := [paymentSide 1 .internal "UTR1", paymentSide 2 .external "UTR1",
        paymentSide 3 .internal "UTR1", paymentSide 4 .external "UTR1",
        paymentSide 5 .internal "UTR2", paymentSide 6 .external "UTR2"] }
  supply := 7

/-- The exact stage alone. -/
def stagedAlone : Prog ExactMatchOutcome := stagedRun.exactStage "AXIS"

/-- The exact stage on what the statement leaves. -/
def stagedBoth : Prog ExactMatchOutcome :=
  (stagedRun.setBasedStage "AXIS").bind fun _ => stagedRun.exactStage "AXIS"

theorem exactStages_agree_threePairs :
    ∃ out s₁ out' s₂, stagedAlone.exec threePairs = (.ok out, s₁) ∧
      stagedBoth.exec threePairs = (.ok out', s₂) ∧ SameMatches s₁.view s₂.view := by
  refine exactStages_agree stagedRun "AXIS" threePairs (by decide) ⟨⟨by decide, by decide⟩,
    by decide⟩ ?_
  intro t ht _ reference href c hc hblank
  have hplain : threePairs.view.transactions.all (fun t => (t.normalisedReference.getD "").toList.all
      fun c => !pythonBlank c) = true := by decide
  have hnone := List.all_eq_true.mp (List.all_eq_true.mp hplain t ht) c (by rw [href]; exact hc)
  rw [hblank] at hnone
  cases hnone

/-- A payment whose reference is a file separator, which Python counts as a blank. -/
def separatorReference : String := String.singleton (Char.ofNat 0x1c)

def separatorDay : Session where
  committed :=
    { transactions := [paymentSide 1 .internal separatorReference,
        paymentSide 2 .external separatorReference] }
  supply := 3

theorem separatorDay_reference {t : NormalisedTransaction}
    (h : t ∈ separatorDay.view.transactions) : t.normalisedReference = some separatorReference := by
  have hmem : t ∈ [paymentSide 1 .internal separatorReference,
      paymentSide 2 .external separatorReference] := h
  simp only [List.mem_cons, List.not_mem_nil, or_false] at hmem
  obtain rfl | rfl := hmem
  · rfl
  · rfl

theorem separatorReference_ascii {c : Char} (h : c ∈ separatorReference.toList) :
    c.toNat < 128 := by
  obtain rfl : c = Char.ofNat 0x1c := by simpa [separatorReference] using h
  exact Nat.le_of_ble_eq_true rfl

/-- The statement pairs what the Python stage gives no key. -/
theorem separator_paired :
    ¬ ∀ (o : Orchestrator) (bankCode : String) (s : Session), (ids s.view.transactions).Nodup →
      Identified s.supply s.view →
      (∀ t ∈ s.view.transactions, t.bankCode = bankCode → ∀ reference,
        t.normalisedReference = some reference → ∀ c ∈ reference.toList, pythonBlank c = true →
          c.toNat < 128) →
      ∃ out s₁ out' s₂, (o.exactStage bankCode).exec s = (.ok out, s₁) ∧
        ((o.setBasedStage bankCode).bind fun _ => o.exactStage bankCode).exec s = (.ok out', s₂) ∧
        SameMatches s₁.view s₂.view := by
  intro h
  obtain ⟨out, s₁, out', s₂, hexec, hexec', hsame⟩ := h stagedRun "AXIS" separatorDay (by decide)
    ⟨⟨by decide, by decide⟩, by decide⟩ fun t ht _ reference href c hc _ =>
      separatorReference_ascii (Option.some.inj (href.symm.trans (separatorDay_reference ht)) ▸ hc)
  have halone : (stagedAlone.exec separatorDay).2.view.results.length = 0 := by decide +kernel
  have hboth : (stagedBoth.exec separatorDay).2.view.results.length = 1 := by decide +kernel
  have hlength := hsame.results.length_eq
  unfold stagedAlone at halone
  unfold stagedBoth at hboth
  rw [hexec] at halone
  rw [hexec'] at hboth
  rw [List.length_map, List.length_map, halone, hboth] at hlength
  cases hlength

end Recon
