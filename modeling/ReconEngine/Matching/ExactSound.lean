import ReconEngine.Greedy.Assignment
import ReconEngine.Matching.Evidence
import ReconEngine.Matching.Outline
import ReconEngine.Store.Handler

/-!
# The exact stage as a greedy assignment

`ExactMatchingStrategy` is a loop over the externals that writes as it goes. What it decides is a
greedy assignment: an internal fits an external when their keys are equal and the pair was not
rejected, the distance is the one between the dates, and the pool says which of several comes
first. An external that meets a claim of somebody else is turned away.

**The law** (`exactRun_sound_maximal`): the stage is such a loop over the pools as it read them,
with the claims that were ACTIVE when it began. From the loop come soundness, the nearest date for
each external in its turn, and maximality: two rows that fit and are both left over do not exist,
but for those that met a claim.

**What it does not establish.** That the assignment is largest among all assignments. It is maximal:
no pair can be added; a different order of turns may make more pairs.
-/

set_option autoImplicit false

namespace Recon

open Greedy (Terms Assignment Left)
open Store.Prog hiding pure bind

/-- The two transactions have one key of the exact stage. -/
def SameKey (internal external : NormalisedTransaction) : Prop :=
  ∃ key, buildKey internal = some key ∧ buildKey external = some key

/-- The terms on which an external takes an internal of the pool. -/
def exactTerms (internals : List NormalisedTransaction) (rejected : List (Id × Id)) :
    Terms NormalisedTransaction NormalisedTransaction where
  fits internal external := SameKey internal external ∧ (internal.id, external.id) ∉ rejected
  distance := daysApart
  precedes internal internal' := internals.idxOf internal < internals.idxOf internal'

/-! ## Order in a pool -/

section

variable {α : Type} [DecidableEq α]

/-- What comes first in a part of a list comes first in the list. -/
theorem idxOf_le_of_sublist {l l' : List α} (h : l.Sublist l') (hnodup : l'.Nodup) {a b : α}
    (ha : a ∈ l) (hle : l.idxOf a ≤ l.idxOf b) (hb : b ∈ l) : l'.idxOf a ≤ l'.idxOf b := by
  induction h with
  | slnil => exact absurd ha List.not_mem_nil
  | @cons l l' x hsub ih =>
    rw [List.nodup_cons] at hnodup
    have hax : x ≠ a := fun heq => hnodup.1 (heq ▸ hsub.subset ha)
    have hbx : x ≠ b := fun heq => hnodup.1 (heq ▸ hsub.subset hb)
    rw [List.idxOf_cons_ne _ hax, List.idxOf_cons_ne _ hbx]
    exact Nat.succ_le_succ (ih hnodup.2 ha hle hb)
  | @cons_cons l l' x hsub ih =>
    rw [List.nodup_cons] at hnodup
    by_cases hxa : x = a
    · subst hxa
      simp
    · by_cases hxb : x = b
      · subst hxb
        rw [List.idxOf_cons_self, Nat.le_zero] at hle
        rw [List.idxOf_cons_ne _ hxa] at hle
        cases hle
      · rw [List.idxOf_cons_ne _ hxa, List.idxOf_cons_ne _ hxb] at hle ⊢
        refine Nat.succ_le_succ (ih hnodup.2 ?_ (Nat.le_of_succ_le_succ hle) ?_)
        · exact (List.mem_cons.mp ha).resolve_left (Ne.symm hxa)
        · exact (List.mem_cons.mp hb).resolve_left (Ne.symm hxb)

end

/-! ## What the loop keeps -/

/-- The index without the internals that were taken. -/
def remainingIndex (internals : List NormalisedTransaction)
    (pairs : List (NormalisedTransaction × NormalisedTransaction)) : ExactIndex :=
  (buildIndex internals).1.filter fun entry => entry.2 ∉ pairs.map Prod.fst

/-- A result of the stage and the pair it is for. -/
def ResultOf (r : MatchResult) (p : NormalisedTransaction × NormalisedTransaction) : Prop :=
  r.status = .autoMatched ∧ r.internalTransactionId = p.1.id ∧ r.externalTransactionId = p.2.id

/-- Nothing of the pools is claimed, and no transaction is on both sides. -/
structure Unclaimed (internals externals : List NormalisedTransaction) (d : Db) : Prop where
  internal : ∀ t ∈ internals, d.isClaimed t.id = false
  external : ∀ t ∈ externals, d.isClaimed t.id = false
  disjoint : ∀ t ∈ internals, ∀ t' ∈ externals, t.id ≠ t'.id

/-- The two cannot both be claimed: somebody has one of them, or it is on both sides. -/
def Contested (internals externals : List NormalisedTransaction) (d : Db)
    (internal external : NormalisedTransaction) : Prop :=
  d.isClaimed internal.id = true ∨ d.isClaimed external.id = true ∨
    internal.id ∈ ids externals ∨ external.id ∈ ids internals

/-- After the turns of `done` the stage has made `pairs` and turned `turned` away. -/
structure ExactLoop (internals externals : List NormalisedTransaction) (rejected : List (Id × Id))
    (start : Db) (done : List NormalisedTransaction) (st : ExactState) (s : Session)
    (pairs : List (NormalisedTransaction × NormalisedTransaction))
    (turned : List NormalisedTransaction) : Prop where
  assignment : Assignment (exactTerms internals rejected) internals done pairs turned
  index : st.index = remainingIndex internals pairs
  identified : Identified s.supply s.view
  results : ∃ rows, s.view.results = start.results ++ rows ∧ List.Forall₂ ResultOf rows pairs ∧
    st.outcome.matchResultIds = rows.map (·.id)
  matched : st.outcome.matchedCount = pairs.length
  conflicts : st.outcome.skippedClaimConflictCount = turned.length
  claimed : ∀ t, s.view.isClaimed t = true ↔ start.isClaimed t = true ∨
    ∃ p ∈ pairs, t = p.1.id ∨ t = p.2.id
  free : ∀ p ∈ pairs, start.isClaimed p.1.id = false ∧ start.isClaimed p.2.id = false
  contested : ∀ external ∈ turned, ∃ internal ∈ internals,
    (exactTerms internals rejected).fits internal external ∧
      Contested internals externals start internal external

/-- Where nothing of the pools was claimed there is no conflict. -/
theorem ExactLoop.smooth {internals externals : List NormalisedTransaction}
    {rejected : List (Id × Id)} {start : Db} {done turned : List NormalisedTransaction}
    {st : ExactState} {s : Session} {pairs : List (NormalisedTransaction × NormalisedTransaction)}
    (h : ExactLoop internals externals rejected start done st s pairs turned)
    (hdone : ∀ t ∈ done, t ∈ externals) (hunclaimed : Unclaimed internals externals start) :
    turned = [] := by
  apply List.eq_nil_iff_forall_not_mem.mpr
  intro external hturned
  have hexternal := hdone external (h.assignment.turned_requests.subset hturned)
  obtain ⟨internal, hinternal, -, hcontested⟩ := h.contested external hturned
  rcases hcontested with hclaim | hclaim | hboth | hboth
  · exact Bool.false_ne_true ((hunclaimed.internal _ hinternal).symm.trans hclaim)
  · exact Bool.false_ne_true ((hunclaimed.external _ hexternal).symm.trans hclaim)
  · obtain ⟨other, hother, hid⟩ := List.mem_map.mp hboth
    exact hunclaimed.disjoint _ hinternal _ hother hid.symm
  · obtain ⟨other, hother, hid⟩ := List.mem_map.mp hboth
    exact hunclaimed.disjoint _ hother _ hexternal hid

section

variable {internals externals : List NormalisedTransaction} {rejected : List (Id × Id)}
  {pairs : List (NormalisedTransaction × NormalisedTransaction)}
  {internal external : NormalisedTransaction} {key : ExactMatchKey}

/-- The index holds what no pair has taken. -/
theorem mem_remainingIndex {entry : ExactMatchKey × NormalisedTransaction} :
    entry ∈ remainingIndex internals pairs ↔
      Left internals pairs entry.2 ∧ buildKey entry.2 = some entry.1 := by
  simp only [remainingIndex, buildIndex, List.mem_filter, List.mem_filterMap, decide_eq_true_eq,
    Option.map_eq_some_iff, Left]
  constructor
  · rintro ⟨⟨t, ht, k, hk, rfl⟩, hout⟩
    exact ⟨⟨ht, hout⟩, hk⟩
  · rintro ⟨⟨ht, hout⟩, hk⟩
    exact ⟨⟨entry.2, ht, entry.1, hk, rfl⟩, hout⟩

/-- What is allowed is left, has the key, and was not rejected. -/
theorem mem_allowed :
    internal ∈ (remainingIndex internals pairs).allowed rejected key external ↔
      Left internals pairs internal ∧ buildKey internal = some key ∧
        (internal.id, external.id) ∉ rejected := by
  simp only [ExactIndex.allowed, ExactIndex.bucket, List.mem_filter, List.mem_map, decide_eq_true_eq,
    Bool.not_eq_true', List.contains_eq_mem, decide_eq_false_iff_not]
  constructor
  · rintro ⟨⟨⟨k, t⟩, ⟨hmem, rfl⟩, rfl⟩, hrej⟩
    obtain ⟨hleft, hkey⟩ := mem_remainingIndex.mp hmem
    exact ⟨hleft, hkey, hrej⟩
  · rintro ⟨hleft, hkey, hrej⟩
    exact ⟨⟨(key, internal), ⟨mem_remainingIndex.mpr ⟨hleft, hkey⟩, rfl⟩, rfl⟩, hrej⟩

/-- The candidates of an external stand in the order of the pool. -/
theorem allowed_sublist :
    ((remainingIndex internals pairs).allowed rejected key external).Sublist internals := by
  have hpool : ((buildIndex internals).1.map Prod.snd).Sublist internals := by
    have hkeep : ∀ ts : List NormalisedTransaction,
        ((ts.filterMap fun t => (buildKey t).map (·, t)).map Prod.snd).Sublist ts := by
      intro ts
      induction ts with
      | nil => exact List.Sublist.refl _
      | cons t ts ih =>
        cases hk : buildKey t with
        | none =>
          simp only [List.filterMap_cons, hk, Option.map_none]
          exact ih.cons t
        | some k =>
          simp only [List.filterMap_cons, hk, Option.map_some, List.map_cons]
          exact ih.cons_cons t
    exact hkeep internals
  refine List.Sublist.trans ?_ hpool
  refine List.filter_sublist.trans ?_
  exact (List.filter_sublist.trans List.filter_sublist).map Prod.snd

/-- The internal that an external takes is the best one left for it. -/
theorem best_of_disambiguate (hids : (ids internals).Nodup) (hkey : buildKey external = some key)
    (h : disambiguate ((remainingIndex internals pairs).allowed rejected key external) external =
      some internal) :
    (exactTerms internals rejected).Best (Left internals pairs) internal external := by
  have hnodup : internals.Nodup := List.Nodup.of_map _ hids
  obtain ⟨hmem, hmin, hfirst⟩ := List.argmin_eq_some_iff.mp h
  obtain ⟨hleft, hown, hrej⟩ := mem_allowed.mp hmem
  have hallowed : ∀ other, Left internals pairs other →
      (exactTerms internals rejected).fits other external →
        other ∈ (remainingIndex internals pairs).allowed rejected key external := by
    rintro other hother ⟨⟨k, hk, hk'⟩, hno⟩
    rw [hkey] at hk'
    cases hk'
    exact mem_allowed.mpr ⟨hother, hk, hno⟩
  constructor
  · exact hleft
  · exact ⟨⟨key, hown, hkey⟩, hrej⟩
  · intro other hother hfits
    exact hmin other (hallowed other hother hfits)
  · intro other hother hfits hsame
    have hin := hallowed other hother hfits
    have hle := idxOf_le_of_sublist allowed_sublist hnodup hmem
      (hfirst other hin (Nat.le_of_eq hsame)) hin
    rcases Nat.lt_or_eq_of_le hle with hlt | heq
    · exact Or.inr hlt
    · exact Or.inl ((List.idxOf_inj hother.1).mp heq.symm)

/-- Where nothing is chosen nothing was allowed. -/
theorem none_of_disambiguate (hkey : buildKey external = some key)
    (h : disambiguate ((remainingIndex internals pairs).allowed rejected key external) external =
      none) :
    ∀ other, Left internals pairs other → ¬ (exactTerms internals rejected).fits other external := by
  rintro other hother ⟨⟨k, hk, hk'⟩, hno⟩
  rw [hkey] at hk'
  cases hk'
  have hmem := mem_allowed.mpr ⟨hother, hk, hno⟩
  rw [List.argmin_eq_none.mp h] at hmem
  exact absurd hmem List.not_mem_nil

/-- Taking an internal out of the index. -/
theorem remainingIndex_erase (hids : (ids internals).Nodup) (hown : buildKey internal = some key) :
    (remainingIndex internals pairs).erase (key, internal) =
      remainingIndex internals (pairs ++ [(internal, external)]) := by
  have hnodup : (remainingIndex internals pairs).Nodup := by
    apply List.Nodup.filter
    apply (List.Nodup.of_map _ hids).filterMap
    intro t t' entry ht ht'
    obtain ⟨_, -, rfl⟩ := Option.map_eq_some_iff.mp ht
    obtain ⟨_, -, heq⟩ := Option.map_eq_some_iff.mp ht'
    exact (congrArg Prod.snd heq).symm
  rw [hnodup.erase_eq_filter, remainingIndex, remainingIndex, List.filter_filter]
  apply List.filter_congr
  intro entry hentry
  obtain ⟨t, -, hkey⟩ := List.mem_filterMap.mp hentry
  obtain ⟨k, hk, rfl⟩ := Option.map_eq_some_iff.mp hkey
  -- An entry is known by its internal, as its key follows from it.
  have hsame : (k, t) = (key, internal) ↔ t = internal := by
    constructor
    · exact fun heq => congrArg Prod.snd heq
    · rintro rfl
      rw [Option.some.inj (hk.symm.trans hown)]
  have hne : ((k, t) != (key, internal)) = !decide (t = internal) := by
    rw [bne, beq_eq_decide, decide_eq_decide.mpr hsame]
  rw [hne, List.map_append, List.map_singleton]
  by_cases heq : t = internal
  · simp [heq]
  · simp [heq]

/-! ## One turn -/

variable {start : Db} {done turned : List NormalisedTransaction} {st : ExactState} {s : Session}

/-- An external that nothing left fits passes. -/
theorem ExactLoop.pass (h : ExactLoop internals externals rejected start done st s pairs turned)
    (hnobody : ∀ other, Left internals pairs other →
      ¬ (exactTerms internals rejected).fits other external) (skipped : Nat) :
    ExactLoop internals externals rejected start (done ++ [external])
      { st with outcome.skippedNoKeyCount := skipped } s pairs turned where
  assignment := h.assignment.pass hnobody
  index := h.index
  identified := h.identified
  results := h.results
  matched := h.matched
  conflicts := h.conflicts
  claimed := h.claimed
  free := h.free
  contested := h.contested

/-- What is claimed at a turn and fits it was claimed at first, or stands on both sides: nothing that
is left belongs to one of the pairs. -/
theorem ExactLoop.contested_of_claimed
    (h : ExactLoop internals externals rejected start done st s pairs turned)
    (hids : (ids internals).Nodup) (hleft : Left internals pairs internal)
    (hdone : ∀ t ∈ done, t ∈ externals ∧ t.id ≠ external.id) (hexternal : external ∈ externals)
    (hconflict : internal.id = external.id ∨ s.view.isClaimed internal.id = true ∨
      s.view.isClaimed external.id = true) :
    Contested internals externals start internal external := by
  have hrequest : ∀ p ∈ pairs, p.2 ∈ externals ∧ p.2.id ≠ external.id := fun p hp =>
    hdone _ (h.assignment.requests.subset (List.mem_map_of_mem hp))
  rcases hconflict with hsame | hclaim | hclaim
  · exact .inr (.inr (.inl (hsame ▸ List.mem_map_of_mem hexternal)))
  · rcases (h.claimed _).mp hclaim with hold | ⟨p, hp, hid | hid⟩
    · exact .inl hold
    · have heq := List.inj_on_of_nodup_map hids hleft.1 (h.assignment.fits hp).1 hid
      exact absurd (heq ▸ List.mem_map_of_mem hp) hleft.2
    · exact .inr (.inr (.inl (hid ▸ List.mem_map_of_mem (hrequest p hp).1)))
  · rcases (h.claimed _).mp hclaim with hold | ⟨p, hp, hid | hid⟩
    · exact .inr (.inl hold)
    · exact .inr (.inr (.inr (hid ▸ List.mem_map_of_mem (h.assignment.fits hp).1)))
    · exact absurd hid.symm (hrequest p hp).2

/-- A conflict turns an external away. -/
theorem ExactLoop.turnAway
    (h : ExactLoop internals externals rejected start done st s pairs turned)
    (hinternal : internal ∈ internals)
    (hfits : (exactTerms internals rejected).fits internal external)
    (hcontested : Contested internals externals start internal external)
    {s' : Session} (hsupply : s.supply ≤ s'.supply) (hview : s'.view = s.view) :
    ExactLoop internals externals rejected start (done ++ [external])
      { st with
        outcome.skippedClaimConflictCount := st.outcome.skippedClaimConflictCount + 1 }
      s' pairs (turned ++ [external]) where
  assignment := h.assignment.turnAway
  index := h.index
  identified := by
    rw [hview]
    exact h.identified.mono hsupply
  results := hview ▸ h.results
  matched := h.matched
  conflicts := by
    rw [List.length_append, ← h.conflicts]
    rfl
  claimed := hview ▸ h.claimed
  free := h.free
  contested := by
    intro other hother
    rcases List.mem_append.mp hother with hother | hother
    · exact h.contested other hother
    · obtain rfl := List.mem_singleton.mp hother
      exact ⟨internal, hinternal, hfits, hcontested⟩

/-- A pair that is written takes its internal. -/
theorem ExactLoop.take (h : ExactLoop internals externals rejected start done st s pairs turned)
    (hids : (ids internals).Nodup) (hown : buildKey internal = some key)
    (hbest : (exactTerms internals rejected).Best (Left internals pairs) internal external)
    {r : MatchResult} (hr : ResultOf r (internal, external)) {k : Nat} {s' : Session}
    (hidentified : Identified s'.supply s'.view)
    (hfree : s.view.isClaimed internal.id = false ∧ s.view.isClaimed external.id = false)
    (hresults : s'.view.results = s.view.results ++ [r])
    (hclaims : s'.view.claims = s.view.claims ++ claimRows k (r.sides (some r.id))) :
    ExactLoop internals externals rejected start (done ++ [external])
      { index := st.index.erase (key, internal),
        outcome :=
          { st.outcome with
            matchedCount := st.outcome.matchedCount + 1
            matchResultIds := st.outcome.matchResultIds ++ [r.id] } }
      s' (pairs ++ [(internal, external)]) turned where
  assignment := h.assignment.take hbest
  index := by
    rw [h.index]
    exact remainingIndex_erase hids hown
  identified := hidentified
  results := by
    obtain ⟨rows, hrows, hof, hout⟩ := h.results
    refine ⟨rows ++ [r], ?_, ?_, ?_⟩
    · rw [hresults, hrows, List.append_assoc]
    · exact List.rel_append hof (List.Forall₂.cons hr List.Forall₂.nil)
    · rw [hout, List.map_append, List.map_singleton]
  matched := by
    rw [List.length_append, ← h.matched]
    rfl
  conflicts := h.conflicts
  claimed := by
    intro t
    have hnew : s'.view.isClaimed t = true ↔
        s.view.isClaimed t = true ∨ t = internal.id ∨ t = external.id := by
      obtain ⟨-, hri, hre⟩ := hr
      simp only [Db.isClaimed, hclaims, claimRows, MatchColumns.sides, hri, hre, List.any_append,
        List.any_cons, List.any_nil, beq_self_eq_true, Bool.and_true, Bool.or_false,
        Bool.or_eq_true, beq_iff_eq]
      exact or_congr Iff.rfl (or_congr eq_comm eq_comm)
    rw [hnew, h.claimed t, or_assoc]
    apply or_congr Iff.rfl
    simp only [List.mem_append, List.mem_singleton, or_and_right, exists_or, exists_eq_left]
  free := by
    intro p hp
    rcases List.mem_append.mp hp with hp | hp
    · exact h.free p hp
    · obtain rfl := List.mem_singleton.mp hp
      have hstart : ∀ t, s.view.isClaimed t = false → start.isClaimed t = false := by
        intro t ht
        by_contra hno
        exact Bool.false_ne_true (ht.symm.trans ((h.claimed t).mpr (.inl (by simpa using hno))))
      exact ⟨hstart _ hfree.1, hstart _ hfree.2⟩
  contested := h.contested

/-- Every turn of the stage is a turn of the assignment. -/
theorem exactTurn_loop {run : Id} (hids : (ids internals).Nodup) (hexternal : external ∈ externals)
    (hdone : ∀ t ∈ done, t ∈ externals ∧ t.id ≠ external.id)
    (h : ExactLoop internals externals rejected start done st s pairs turned) :
    (exactTurn run rejected st external).wp
      (fun st' s' => ∃ pairs' turned',
        ExactLoop internals externals rejected start (done ++ [external]) st' s' pairs' turned')
      (fun _ _ => False) s := by
  unfold exactTurn
  split
  · rename_i hkey
    refine ⟨pairs, turned, h.pass ?_ _⟩
    intro other _ hfits
    obtain ⟨key, -, hown⟩ := hfits.1
    cases hkey.symm.trans hown
  · rename_i key hkey
    rw [h.index]
    split
    · rename_i hchoice
      exact ⟨pairs, turned, h.pass (none_of_disambiguate hkey hchoice) st.outcome.skippedNoKeyCount⟩
    · rename_i internal hchoice
      have hbest := best_of_disambiguate hids hkey hchoice
      obtain ⟨own, hown, hsame⟩ := hbest.fits.1
      obtain rfl : own = key := Option.some.inj (hsame.symm.trans hkey)
      rw [bind_eq, wp_bind]
      refine (recordPair_outline _ h.identified).and
        (recordPair_spec _ s h.identified.claimBelow) |>.mono ?_ fun _ _ h => h.1
      rintro (_ | id) s' ⟨⟨hidentified, -⟩, hsupply, hout⟩
      · refine ⟨pairs, turned ++ [external], ?_⟩
        rw [← h.index]
        have hconflict : internal.id = external.id ∨ s.view.isClaimed internal.id = true ∨
            s.view.isClaimed external.id = true := by
          have hfree := hout.1
          simp only [Db.Free, MatchColumns.sides, exactColumns] at hfree
          by_contra hno
          simp only [not_or, Bool.not_eq_true] at hno
          exact hfree ⟨by simpa using hno.1, by simpa using hno.2⟩
        exact h.turnAway hbest.available.1 hbest.fits
          (h.contested_of_claimed hids hbest.available hdone hexternal hconflict) hsupply hout.2
      · obtain ⟨hfree, -, -, hview⟩ := hout
        have hunclaimed : s.view.isClaimed internal.id = false ∧
            s.view.isClaimed external.id = false := by
          have hsides := hfree.2
          simpa [MatchColumns.sides, exactColumns] using hsides
        refine wp_bind.mpr ((markAll_outline _ hidentified).and (markAll_spec _ s') |>.mono ?_
          fun _ _ h => h.1)
        rintro _ s'' ⟨⟨hidentified', -⟩, hmarked, -⟩
        rw [hview] at hmarked
        refine ⟨pairs ++ [(internal, external)], turned, ?_⟩
        rw [← h.index]
        exact h.take hids hown hbest ⟨rfl, rfl, rfl⟩ hidentified' hunclaimed
          (by rw [hmarked]; rfl) (by rw [hmarked]; rfl)

/-- The stage is an assignment of the internals to the externals. -/
theorem exactRun_loop {run : Id} (hids : (ids internals).Nodup) (hids' : (ids externals).Nodup)
    (h : Identified s.supply s.view) :
    (exactRun run internals externals).wp
      (fun out s' => ∃ st pairs turned, out = st.outcome ∧
        ExactLoop internals externals (s.view.rejectedPairs (ids internals)) s.view externals
          st s' pairs turned)
      (fun _ _ => False) s := by
  simp only [exactRun, bind_eq, wp_bind, wp_levelOn]
  have hloop : (externals.foldlM (exactTurn run (s.view.rejectedPairs (ids internals)))
      { index := (buildIndex internals).1,
        outcome := { skippedNoKeyCount := (buildIndex internals).2 } }).wp
      (fun st s' => ∃ pairs turned, ExactLoop internals externals
        (s.view.rejectedPairs (ids internals)) s.view externals st s' pairs turned)
      (fun _ _ => False) s := by
    refine wp_foldlM_turns (I := fun done st s' => ∃ pairs turned, ExactLoop internals externals
      (s.view.rejectedPairs (ids internals)) s.view done st s' pairs turned) ?_ ?_
    · rintro done external rest hsplit st s' ⟨pairs, turned, hst⟩
      have hexternal : external ∈ externals := by
        rw [hsplit]
        exact List.mem_append_right _ List.mem_cons_self
      refine exactTurn_loop hids hexternal ?_ hst
      intro t ht
      have hmem : t ∈ externals := by
        rw [hsplit]
        exact List.mem_append_left _ ht
      refine ⟨hmem, fun hsame => ?_⟩
      -- The external comes after `t`, so it is another row.
      have hpart := hids'
      rw [ids, hsplit, List.map_append, List.map_cons] at hpart
      exact (List.nodup_append.mp hpart).2.2 _ (List.mem_map_of_mem ht) _ List.mem_cons_self hsame
    · refine ⟨[], [], .start, ?_, h, ⟨[], (List.append_nil _).symm, .nil, rfl⟩, rfl, rfl, ?_, ?_, ?_⟩
      · simp [remainingIndex]
      · simp
      · exact fun p hp => absurd hp List.not_mem_nil
      · exact fun t ht => absurd ht List.not_mem_nil
  refine hloop.mono ?_ fun _ _ h => h
  rintro st s' ⟨pairs, turned, hst⟩
  exact ⟨st, pairs, turned, rfl, hst⟩

/-! ## Soundness and maximality -/

/-- The stage took `d` to `d'` by making `pairs`, in the order of the externals, and turned the
externals of `turned` away. An external is turned away for a claim of somebody else only, and one
that has neither an internal nor a conflict has no internal left that it could have taken. -/
structure ExactMatching (internals externals : List NormalisedTransaction) (d d' : Db)
    (out : ExactMatchOutcome) (pairs : List (NormalisedTransaction × NormalisedTransaction))
    (turned : List NormalisedTransaction) : Prop where
  written : ∃ rows, d'.results = d.results ++ rows ∧ List.Forall₂ ResultOf rows pairs ∧
    out.matchResultIds = rows.map (·.id)
  claimed : ∀ t, d'.isClaimed t = true ↔ d.isClaimed t = true ∨
    ∃ p ∈ pairs, t = p.1.id ∨ t = p.2.id
  matched : out.matchedCount = pairs.length
  inPools : ∀ p ∈ pairs, p.1 ∈ internals ∧ p.2 ∈ externals
  internalOnce : (pairs.map (·.1.id)).Nodup
  externalOnce : (pairs.map (·.2.id)).Nodup
  sameKey : ∀ p ∈ pairs, SameKey p.1 p.2
  notRejected : ∀ p ∈ pairs, ¬ d.Rejected p.1.id p.2.id
  unclaimed : ∀ p ∈ pairs, d.isClaimed p.1.id = false ∧ d.isClaimed p.2.id = false
  inTurn : (pairs.map Prod.snd).Sublist externals
  nearest : ∀ before p after, pairs = before ++ p :: after → ∀ other ∈ internals,
    other ∉ before.map Prod.fst → SameKey other p.2 → ¬ d.Rejected other.id p.2.id →
      daysApart p.1 p.2 ≤ daysApart other p.2
  conflicts : out.skippedClaimConflictCount = turned.length
  turnedAway : turned.Sublist externals
  contested : ∀ external ∈ turned, ∃ internal ∈ internals, SameKey internal external ∧
    ¬ d.Rejected internal.id external.id ∧ Contested internals externals d internal external
  smooth : Unclaimed internals externals d → out.skippedClaimConflictCount = 0
  maximal : ∀ internal ∈ internals, internal ∉ pairs.map Prod.fst → ∀ external ∈ externals,
    external ∉ pairs.map Prod.snd → external ∉ turned → SameKey internal external →
      d.Rejected internal.id external.id

/-- **The exact stage is sound and maximal**, whatever is rejected and claimed when it starts. -/
theorem exactRun_sound_maximal (run : Id) (internals externals : List NormalisedTransaction)
    (hids : (ids internals).Nodup) (hids' : (ids externals).Nodup) (s : Session)
    (h : Identified s.supply s.view) :
    (exactRun run internals externals).wp
      (fun out s' => ∃ pairs turned,
        ExactMatching internals externals s.view s'.view out pairs turned)
      (fun _ _ => False) s := by
  refine (exactRun_loop hids hids' h).mono ?_ fun _ _ h => h
  rintro out s' ⟨st, pairs, turned, rfl, hst⟩
  have hrejected : ∀ internal ∈ internals, ∀ external,
      (internal.id, external) ∉ s.view.rejectedPairs (ids internals) ↔
        ¬ s.view.Rejected internal.id external := by
    intro internal hin external
    rw [Db.mem_rejectedPairs, and_iff_right (show internal.id ∈ ids internals from
      List.mem_map_of_mem hin)]
  refine ⟨pairs, turned, ?_⟩
  constructor
  · exact hst.results
  · exact hst.claimed
  · exact hst.matched
  · intro p hp
    exact ⟨(hst.assignment.fits hp).1, hst.assignment.requests.subset (List.mem_map_of_mem hp)⟩
  · have hnodup := hst.assignment.items_nodup.map_on (f := fun t => t.id) ?_
    · rwa [List.map_map] at hnodup
    · intro a ha b hb
      obtain ⟨p, hp, rfl⟩ := List.mem_map.mp ha
      obtain ⟨q, hq, rfl⟩ := List.mem_map.mp hb
      exact List.inj_on_of_nodup_map hids (hst.assignment.fits hp).1 (hst.assignment.fits hq).1
  · have hsub := hst.assignment.requests.map (·.id)
    rw [List.map_map] at hsub
    exact hids'.sublist hsub
  · intro p hp
    exact (hst.assignment.fits hp).2.1
  · intro p hp
    obtain ⟨hin, -, hno⟩ := hst.assignment.fits hp
    exact (hrejected _ hin _).mp hno
  · exact hst.free
  · exact hst.assignment.requests
  · intro before p after hsplit other hin hout hsame hno
    exact (hst.assignment.best before p after hsplit).nearest other ⟨hin, hout⟩
      ⟨hsame, (hrejected other hin _).mpr hno⟩
  · exact hst.conflicts
  · exact hst.assignment.turned_requests
  · intro external hturned
    obtain ⟨internal, hin, ⟨hsame, hno⟩, hcontested⟩ := hst.contested external hturned
    exact ⟨internal, hin, hsame, (hrejected internal hin _).mp hno, hcontested⟩
  · intro hunclaimed
    rw [hst.conflicts, hst.smooth (fun _ ht => ht) hunclaimed]
    rfl
  · intro internal hin hout external hexternal hout' hturned hsame
    by_contra hno
    exact hst.assignment.left_over internal ⟨hin, hout⟩ external hexternal hout' hturned
      ⟨hsame, (hrejected internal hin _).mpr hno⟩

end

/-- A store in which a person rejected the pair of 1 and 3, and 4 is claimed. -/
def reviewedStore : Session where
  committed :=
    { results := [{ exactColumns 0 (paymentSide 1 .internal "UTR1")
                      (paymentSide 3 .external "UTR1") 1 with id := 8, status := .rejected }],
      claims := [⟨9, 4, none, .external, .active⟩] }
  supply := 10

def rejectedInternals : List NormalisedTransaction :=
  [paymentSide 1 .internal "UTR1", paymentSide 2 .internal "UTR1"]

def rejectedExternals : List NormalisedTransaction :=
  [paymentSide 3 .external "UTR1", paymentSide 4 .external "UTR1"]

theorem reviewedStore_identified : Identified reviewedStore.supply reviewedStore.view :=
  ⟨⟨by decide, by decide⟩, by decide⟩

theorem exactRun_sound_maximal_reviewed :
    (exactRun 1 rejectedInternals rejectedExternals).wp
      (fun out s' => ∃ pairs turned, ExactMatching rejectedInternals rejectedExternals
        reviewedStore.view s'.view out pairs turned)
      (fun _ _ => False) reviewedStore :=
  exactRun_sound_maximal 1 rejectedInternals rejectedExternals (by decide) (by decide)
    reviewedStore reviewedStore_identified

end Recon
