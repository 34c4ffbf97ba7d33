import ReconEngine.Matching.Group
import ReconEngine.Matching.UniqueSubset

/-!
# What a link decides

`_solve` only reads. Its answer over given tables is taken apart here: which candidates a link
offers, when it settles the single side, when it fails, and when it goes on to the next link.

**The rules** (`groupTurn_wp`, `groupRun_wp`, `groupRun_returns`): a turn by its cases, and a run
from its turns. Every later law about the stage is an instance: `P` holds before each turn that the
run comes to, whatever the turns before it have recorded.

**What it does not establish.** That a turn returns. A link may raise, and the third rule says a run
returns exactly when its turns do (`Matching.GroupRaises`).
-/

set_option autoImplicit false

namespace Recon

open Store.Prog hiding pure bind

/-! ## Candidates -/

/-- A transaction of the pool that may be a member of a group with the single side. -/
structure Eligible (config : GroupMatchConfig) (rejected : List (Id × Id)) (consumed : List Id)
    (single : NormalisedTransaction) (pool : List NormalisedTransaction)
    (t : NormalisedTransaction) : Prop where
  inPool : t ∈ pool
  unused : t.id ∉ consumed
  notRejected : isRejectedPairing rejected single t = false
  direction : t.direction = single.direction
  window : daysApart t single ≤ config.dateWindowDays

/-- They share a stem key or the counterparty key. -/
def SharesLink (g : GroupStrategy) (single member : NormalisedTransaction) : Prop :=
  (∃ key ∈ stemKeys g.upper member g.config.minStemLength,
      key ∈ stemKeys g.upper single g.config.minStemLength) ∨
    ((partyKey g.config single).isSome ∧ partyKey g.config member = partyKey g.config single)

section

variable {config : GroupMatchConfig} {rejected : List (Id × Id)} {consumed : List Id}
  {single t : NormalisedTransaction} {pool : List NormalisedTransaction}

/-- The candidates of a link, in terms of the pool. -/
theorem groupCandidates_iff {linked : NormalisedTransaction → Bool} :
    t ∈ groupCandidates config rejected consumed single linked pool ↔
      linked t = true ∧ Eligible config rejected consumed single pool t := by
  simp only [groupCandidates, List.mem_insertionSort, List.mem_filter, Bool.and_eq_true,
    Bool.not_eq_true', List.contains_eq_mem, decide_eq_false_iff_not, beq_iff_eq,
    decide_eq_true_eq]
  constructor
  · rintro ⟨hpool, ⟨⟨⟨hlinked, hunused⟩, hrejected⟩, hdirection⟩, hwindow⟩
    exact ⟨hlinked, hpool, hunused, hrejected, hdirection, hwindow⟩
  · rintro ⟨hlinked, hpool, hunused, hrejected, hdirection, hwindow⟩
    exact ⟨hpool, ⟨⟨⟨hlinked, hunused⟩, hrejected⟩, hdirection⟩, hwindow⟩

/-- Those of the reference stem share a key with the single. -/
theorem mem_stemCandidates {g : GroupStrategy} :
    t ∈ stemCandidates g rejected consumed single pool ↔
      (∃ key ∈ stemKeys g.upper t g.config.minStemLength,
          key ∈ stemKeys g.upper single g.config.minStemLength) ∧
        Eligible g.config rejected consumed single pool t := by
  simp [stemCandidates, groupCandidates_iff]

/-- Those of the counterparty have its name. -/
theorem mem_partyCandidates :
    t ∈ partyCandidates config rejected consumed single pool ↔
      ((partyKey config single).isSome ∧ partyKey config t = partyKey config single) ∧
        Eligible config rejected consumed single pool t := by
  simp [partyCandidates, groupCandidates_iff]

end

/-! ## The comparison -/

theorem reads_quote (currency : String) (day : Date) : (quote currency day).Reads :=
  Reads.bind reads_view fun _ => reads_pure _

theorem reads_legInr (t : NormalisedTransaction) : (legInr t).Reads := by
  refine Reads.bind (reads_quote _ _) fun q => ?_
  cases q with
  | none => exact reads_pure _
  | some q =>
    dsimp only
    split
    · exact reads_fail _
    · exact reads_pure _

theorem reads_legsInr : ∀ ts : List NormalisedTransaction, (legsInr ts).Reads
  | [] => reads_pure _
  | t :: ts => by
    refine Reads.bind (reads_legInr t) fun inr => ?_
    cases inr with
    | none => exact reads_pure _
    | some inr =>
      refine Reads.bind (reads_legsInr ts) fun rest => ?_
      cases rest <;> exact reads_pure _

section

variable {g : GroupStrategy} {maxMembers : Nat} {single : NormalisedTransaction}
  {candidates : List NormalisedTransaction} {link : GroupLink} {confidence : Nat}
  {outcome : GroupMatchOutcome}

theorem reads_groupLegs : (groupLegs g single candidates).Reads := by
  unfold groupLegs
  split
  · exact reads_pure _
  · split
    · exact reads_pure _
    · refine Reads.bind (reads_legsInr _) fun legs => ?_
      split
      · exact Reads.bind (reads_ofExcept _) fun _ => reads_pure _
      · exact reads_pure _

theorem reads_groupFit :
    (groupFit g maxMembers single candidates link confidence outcome).Reads := by
  refine Reads.bind reads_groupLegs fun legs => ?_
  cases legs with
  | none => exact reads_pure _
  | some legs =>
    dsimp only
    split
    · exact reads_fail _
    · split
      · exact reads_pure _
      · exact reads_pure _
      · exact reads_pure _
      · exact Reads.bind (reads_ofExcept _) fun _ => reads_pure _

theorem reads_groupLink :
    (groupLink g maxMembers single candidates link confidence outcome).Reads := by
  unfold groupLink
  split
  · exact reads_pure _
  · exact reads_groupFit

theorem reads_groupSolve {pool : List NormalisedTransaction} {rejected : List (Id × Id)}
    {consumed : List Id} : (groupSolve g maxMembers pool rejected consumed outcome single).Reads := by
  refine Reads.bind reads_groupLink fun out => ?_
  dsimp only
  split
  · exact reads_pure _
  · exact reads_groupLink

end

/-! ## The answer of a link -/

/-- The amounts a link compares over the tables `d`; `none` when a needed rate is unavailable. -/
def Db.legs (d : Db) (g : GroupStrategy) (single : NormalisedTransaction)
    (candidates : List NormalisedTransaction) : Except ReconError (Option GroupLegs) :=
  (groupLegs g single candidates).answer d

/-- The candidates settle the single side over the tables `d`, with this solution. -/
structure Settles (d : Db) (g : GroupStrategy) (maxMembers : Nat) (single : NormalisedTransaction)
    (candidates : List NormalisedTransaction) (link : GroupLink) (confidence : Nat)
    (legs : GroupLegs) (found : SubsetSearch) (solution : GroupSolution) : Prop where
  several : 2 ≤ candidates.length
  compared : d.legs g single candidates = .ok (some legs)
  chosen : chooseMembers g.config maxMembers legs candidates.length = .ok found
  unique : found.outcome = .unique
  made : groupSolution single candidates link confidence legs found.indices = .ok solution

/-- What the outcome of the search makes of a link. -/
def concludeFit (single : NormalisedTransaction) (candidates : List NormalisedTransaction)
    (link : GroupLink) (confidence : Nat) (outcome : GroupMatchOutcome) (legs : GroupLegs)
    (found : SubsetSearch) : Except ReconError (Option GroupSolution × GroupMatchOutcome) :=
  match found.outcome with
  | .ambiguous => .ok (none, { outcome with ambiguousCount := outcome.ambiguousCount + 1 })
  | .tooComplex => .ok (none, { outcome with tooComplexCount := outcome.tooComplexCount + 1 })
  | .none => .ok (none, outcome)
  | .unique => do
    let solution ← groupSolution single candidates link confidence legs found.indices
    return (some solution, outcome)

/-- The amounts of a link, searched. -/
def searchFit (g : GroupStrategy) (maxMembers : Nat) (single : NormalisedTransaction)
    (candidates : List NormalisedTransaction) (link : GroupLink) (confidence : Nat)
    (outcome : GroupMatchOutcome) : Option GroupLegs →
      Except ReconError (Option GroupSolution × GroupMatchOutcome)
  | none => .ok (none, { outcome with missingFxCount := outcome.missingFxCount + 1 })
  | some legs => do
    let found ← chooseMembers g.config maxMembers legs candidates.length
    concludeFit single candidates link confidence outcome legs found

section

variable {g : GroupStrategy} {maxMembers : Nat} {single : NormalisedTransaction}
  {candidates : List NormalisedTransaction} {link : GroupLink} {confidence : Nat}
  {outcome outcome' : GroupMatchOutcome} {d : Db} {solution : GroupSolution}

/-- Its answer for one link: the amounts, and a search among them. -/
theorem groupFit_answer :
    (groupFit g maxMembers single candidates link confidence outcome).answer d =
      d.legs g single candidates >>=
        searchFit g maxMembers single candidates link confidence outcome := by
  refine (Reads.answer_bind reads_groupLegs _ d).trans (congrArg _ (funext fun legs => ?_))
  cases legs with
  | none => rfl
  | some legs =>
    dsimp only [searchFit]
    cases chooseMembers g.config maxMembers legs candidates.length with
    | error e => rfl
    | ok found =>
      obtain ⟨decided, indices, total⟩ := found
      cases decided with
      | unique =>
        exact (Reads.answer_bind (S := schema) (reads_ofExcept _) _ d).trans (by
          rw [answer_ofExcept]
          rfl)
      | none => rfl
      | ambiguous => rfl
      | tooComplex => rfl

theorem concludeFit_some {legs : GroupLegs} {found : SubsetSearch} :
    concludeFit single candidates link confidence outcome legs found = .ok (some solution, outcome') ↔
      outcome' = outcome ∧ found.outcome = .unique ∧
        groupSolution single candidates link confidence legs found.indices = .ok solution := by
  unfold concludeFit
  cases hfound : found.outcome with
  | unique =>
    cases groupSolution single candidates link confidence legs found.indices with
    | ok made => simp [and_comm, eq_comm, pure, Except.pure, bind, Except.bind]
    | error e => simp [bind, Except.bind]
  | none => simp
  | ambiguous => simp
  | tooComplex => simp

/-- A link settles the single side exactly when its candidates do; nothing is counted then. -/
theorem groupLink_some :
    (groupLink g maxMembers single candidates link confidence outcome).answer d =
        .ok (some solution, outcome') ↔
      outcome' = outcome ∧ ∃ legs found,
        Settles d g maxMembers single candidates link confidence legs found solution := by
  unfold groupLink
  split
  · rename_i hfew
    constructor
    · intro h
      cases h
    · rintro ⟨-, legs, found, hsettles⟩
      exact absurd hsettles.several (by omega)
  · rename_i hmany
    rw [groupFit_answer]
    constructor
    · intro h
      obtain ⟨out, hlegs, h⟩ := except_bind_ok h
      cases out with
      | none => cases h
      | some legs =>
        obtain ⟨found, hfound, h⟩ := except_bind_ok h
        obtain ⟨rfl, hunique, hsolution⟩ := concludeFit_some.mp h
        exact ⟨rfl, legs, found, by omega, hlegs, hfound, hunique, hsolution⟩
    · rintro ⟨rfl, legs, found, -, hlegs, hfound, hunique, hsolution⟩
      rw [hlegs]
      change searchFit g maxMembers single candidates link confidence outcome' (some legs) = _
      rw [searchFit, hfound]
      exact concludeFit_some.mpr ⟨rfl, hunique, hsolution⟩

/-- Only the counters of a link change. -/
theorem groupLink_groups {out : Option GroupSolution}
    (h : (groupLink g maxMembers single candidates link confidence outcome).answer d =
      .ok (out, outcome')) : outcome'.matchGroupIds = outcome.matchGroupIds := by
  unfold groupLink at h
  split at h
  · cases h
    rfl
  · rw [groupFit_answer] at h
    obtain ⟨legs, -, h⟩ := except_bind_ok h
    cases legs with
    | none =>
      cases h
      rfl
    | some legs =>
      obtain ⟨found, -, h⟩ := except_bind_ok h
      unfold concludeFit at h
      split at h
      · cases h
        rfl
      · cases h
        rfl
      · cases h
        rfl
      · obtain ⟨made, -, h⟩ := except_bind_ok h
        cases h
        rfl

end

/-! ## The members of a solution -/

section

variable {g : GroupStrategy} {maxMembers : Nat} {single : NormalisedTransaction}
  {candidates : List NormalisedTransaction} {link : GroupLink} {confidence : Nat} {d : Db}
  {legs : GroupLegs} {found : SubsetSearch} {solution : GroupSolution}

/-- There is an amount for every candidate. -/
theorem Db.legs_length (h : d.legs g single candidates = .ok (some legs)) :
    legs.amounts.length = candidates.length :=
  groupLegs_length.answer h legs rfl

/-- The indices of a unique choice: increasing, and as many as a group may have. -/
theorem chooseMembers_indices {config : GroupMatchConfig} {n : Nat}
    (hlen : legs.amounts.length = n) (h : chooseMembers config maxMembers legs n = .ok found)
    (hu : found.outcome = .unique) :
    found.indices.Pairwise (· < ·) ∧ (∀ i ∈ found.indices, i < n) ∧ 2 ≤ found.indices.length ∧
      found.indices.length ≤ maxMembers := by
  obtain ⟨htwo, hbelow⟩ := chooseMembers_unique hlen h hu
  unfold chooseMembers at h
  split at h
  · rename_i hwhole
    cases h
    exact ⟨List.pairwise_lt_range, hbelow, htwo, List.length_range.symm ▸ hwhole.2.1⟩
  · split at h
    · cases h
      cases hu
    · obtain ⟨hincreasing, hfits, -⟩ := findUniqueSubset_unique h hu
      have hcard := List.toFinset_card_of_nodup (hincreasing.imp Nat.ne_of_lt)
      exact ⟨hincreasing, hbelow, htwo, hcard ▸ hfits.maxSize⟩

/-- Indices of candidates name as many members. -/
theorem length_filterMap_get {α : Type} (xs : List α) :
    ∀ {is : List Nat}, (∀ i ∈ is, i < xs.length) → (is.filterMap (xs[·]?)).length = is.length
  | [], _ => rfl
  | i :: is, h => by
    have hget := List.getElem?_eq_getElem (h i List.mem_cons_self)
    rw [List.filterMap_cons_some hget, List.length_cons, List.length_cons,
      length_filterMap_get xs fun j hj => h j (List.mem_cons_of_mem i hj)]

/-- A solution has as many members as a group may have, and they are candidates. -/
theorem Settles.members
    (h : Settles d g maxMembers single candidates link confidence legs found solution) :
    2 ≤ solution.members.length ∧ solution.members.length ≤ maxMembers ∧
      ∀ m ∈ solution.members, m ∈ candidates := by
  obtain ⟨-, hbelow, htwo, hmax⟩ :=
    chooseMembers_indices (Db.legs_length h.compared) h.chosen h.unique
  rw [groupSolution_members h.made, length_filterMap_get candidates hbelow]
  refine ⟨htwo, hmax, fun m hm => ?_⟩
  obtain ⟨i, -, hget⟩ := List.mem_filterMap.mp hm
  exact List.mem_of_getElem? hget

end

/-! ## The answer of the solver -/

section

variable {g : GroupStrategy} {maxMembers : Nat} {single : NormalisedTransaction}
  {pool : List NormalisedTransaction} {rejected : List (Id × Id)} {consumed : List Id}
  {outcome outcome' : GroupMatchOutcome} {d : Db} {out : Option GroupSolution}

/-- The solver stops at the first link that settles the single side. -/
theorem groupSolve_answer :
    (groupSolve g maxMembers pool rejected consumed outcome single).answer d =
      (groupLink g maxMembers single (stemCandidates g rejected consumed single pool)
        .referenceStem 950 outcome).answer d >>= fun first =>
          if first.1.isSome then .ok first
          else (groupLink g maxMembers single
            (partyCandidates g.config rejected consumed single pool) .counterparty 900
              first.2).answer d := by
  refine (Reads.answer_bind reads_groupLink _ d).trans (congrArg _ (funext fun first => ?_))
  dsimp only
  split <;> rfl

/-- A solution settles the candidates of one of the two links. -/
theorem groupSolve_some {solution : GroupSolution}
    (h : (groupSolve g maxMembers pool rejected consumed outcome single).answer d =
      .ok (some solution, outcome')) :
    ∃ candidates link confidence legs found,
      Settles d g maxMembers single candidates link confidence legs found solution ∧
      (candidates = stemCandidates g rejected consumed single pool ∨
        candidates = partyCandidates g.config rejected consumed single pool) := by
  rw [groupSolve_answer] at h
  obtain ⟨first, hfirst, h⟩ := except_bind_ok h
  split at h
  · cases h
    obtain ⟨-, legs, found, hsettles⟩ := groupLink_some.mp hfirst
    exact ⟨_, _, _, legs, found, hsettles, Or.inl rfl⟩
  · obtain ⟨-, legs, found, hsettles⟩ := groupLink_some.mp h
    exact ⟨_, _, _, legs, found, hsettles, Or.inr rfl⟩

/-- The members of a solution are linked to the single side and may be members. -/
theorem groupSolve_members {solution : GroupSolution}
    (h : (groupSolve g maxMembers pool rejected consumed outcome single).answer d =
      .ok (some solution, outcome')) :
    2 ≤ solution.members.length ∧ solution.members.length ≤ maxMembers ∧
      ∀ m ∈ solution.members, SharesLink g single m ∧
        Eligible g.config rejected consumed single pool m := by
  obtain ⟨candidates, link, confidence, legs, found, hsettles, hcandidates⟩ := groupSolve_some h
  obtain ⟨htwo, hmax, hmem⟩ := hsettles.members
  refine ⟨htwo, hmax, fun m hm => ?_⟩
  rcases hcandidates with rfl | rfl
  · obtain ⟨hlink, heligible⟩ := mem_stemCandidates.mp (hmem m hm)
    exact ⟨Or.inl hlink, heligible⟩
  · obtain ⟨hlink, heligible⟩ := mem_partyCandidates.mp (hmem m hm)
    exact ⟨Or.inr hlink, heligible⟩

theorem groupSolve_groups
    (h : (groupSolve g maxMembers pool rejected consumed outcome single).answer d =
      .ok (out, outcome')) : outcome'.matchGroupIds = outcome.matchGroupIds := by
  rw [groupSolve_answer] at h
  obtain ⟨first, hfirst, h⟩ := except_bind_ok h
  split at h
  · cases h
    exact groupLink_groups hfirst
  · exact (groupLink_groups h).trans (groupLink_groups hfirst)

end

/-! ## One turn -/

/-- The transactions that a pass looks at one by one. -/
def GroupKind.singles (internals externals : List NormalisedTransaction) :
    GroupKind → List NormalisedTransaction
  | .split => internals
  | .netted => externals

/-- The transactions among which it looks for members. -/
def GroupKind.pool (internals externals : List NormalisedTransaction) :
    GroupKind → List NormalisedTransaction
  | .split => externals
  | .netted => internals

def GroupKind.maxMembers (config : GroupMatchConfig) : GroupKind → Nat
  | .split => config.maxSplitMembers
  | .netted => config.maxNettedMembers

/-- The state after a solution was recorded under an identifier, or skipped. -/
def GroupState.concluded (st : GroupState) (kind : GroupKind) (single : NormalisedTransaction)
    (solution : GroupSolution) (outcome : GroupMatchOutcome) : Option Id → GroupState
  | none =>
    let conflicts := outcome.skippedClaimConflictCount + 1
    { st with outcome := { outcome with skippedClaimConflictCount := conflicts } }
  | some group =>
    let outcome := { outcome with matchGroupIds := outcome.matchGroupIds ++ [group] }
    let outcome := match kind with
      | .split => { outcome with splitGroups := outcome.splitGroups + 1 }
      | .netted => { outcome with nettedGroups := outcome.nettedGroups + 1 }
    { consumed := single.id :: ids solution.members ++ st.consumed, outcome := outcome }

/-- A recorded group is added to the outcome, a skipped one is not. -/
theorem GroupState.concluded_groups (st : GroupState) (kind : GroupKind)
    (single : NormalisedTransaction) (solution : GroupSolution) (outcome : GroupMatchOutcome)
    (out : Option Id) : (st.concluded kind single solution outcome out).outcome.matchGroupIds =
      outcome.matchGroupIds ++ out.toList := by
  cases out with
  | none => exact (List.append_nil _).symm
  | some group => cases kind <;> rfl

section

variable {g : GroupStrategy} {kind : GroupKind} {single : NormalisedTransaction}
  {pool : List NormalisedTransaction} {rejected : List (Id × Id)} {st : GroupState} {s : Session}
  {Q : GroupState → Session → Prop} {E : ReconError → Session → Prop}

/-- A turn by its cases: the single side is used up, the solver fails, it finds nothing, or its
solution goes on to be recorded. -/
theorem groupTurn_wp (hused : single.id ∈ st.consumed → Q st s)
    (hfail : single.id ∉ st.consumed → ∀ e, (groupSolve g (kind.maxMembers g.config) pool rejected
      st.consumed st.outcome single).answer s.view = .error e → E e s)
    (hnone : ∀ outcome, (groupSolve g (kind.maxMembers g.config) pool rejected
      st.consumed st.outcome single).answer s.view = .ok (none, outcome) →
        Q { st with outcome := outcome } s)
    (hsome : single.id ∉ st.consumed → ∀ solution outcome,
      (groupSolve g (kind.maxMembers g.config) pool rejected st.consumed st.outcome single).answer
        s.view = .ok (some solution, outcome) →
      (groupRecord g kind single solution).wp
        (fun out s' => Q (st.concluded kind single solution outcome out) s') E s) :
    (groupTurn g kind pool rejected st single).wp Q E s := by
  -- Both kinds run the same turn, each with its own bound.
  cases kind
  all_goals
    unfold groupTurn
    dsimp only
    split
    · rename_i hin
      exact hused (by simpa using hin)
    · rename_i hout
      have hunused : single.id ∉ st.consumed := by simpa using hout
      refine wp_bind.mpr (reads_groupSolve.wp_iff.mpr ⟨fun out hanswer => ?_, hfail hunused⟩)
      obtain ⟨solution, outcome⟩ := out
      cases solution with
      | none => exact hnone outcome hanswer
      | some solution =>
        refine wp_bind.mpr ((hsome hunused solution outcome hanswer).mono ?_ fun _ _ h => h)
        intro out s' h
        cases out <;> exact h

end

/-! ## The run -/

/-- `P` holds before every turn that the two passes of a run come to. -/
def TurnsMeet (g : GroupStrategy) (internals externals : List NormalisedTransaction)
    (P : GroupKind → GroupState → NormalisedTransaction → Session → Prop) (s : Session) : Prop :=
  EachTurn (P .split) (groupTurn g .split externals (s.view.rejectedPairs (ids internals)))
      internals {} s ∧
    (internals.foldlM (groupTurn g .split externals (s.view.rejectedPairs (ids internals))) {}).wp
      (fun st s' => EachTurn (P .netted)
        (groupTurn g .netted internals (s.view.rejectedPairs (ids internals))) externals st s')
      (fun _ _ => True) s

section

variable {g : GroupStrategy} {internals externals : List NormalisedTransaction}
  {P : GroupKind → GroupState → NormalisedTransaction → Session → Prop} {s : Session}

/-- What holds before every turn holds before those that a run comes to. -/
theorem TurnsMeet.of_all (h : ∀ kind, ∀ single ∈ GroupKind.singles internals externals kind,
    ∀ st s', P kind st single s') : TurnsMeet g internals externals P s :=
  ⟨EachTurn.of_all (h .split) _ _,
    (wp_trivial _ s).mono (fun _ _ _ => EachTurn.of_all (h .netted) _ _) fun _ _ _ => trivial⟩

/-- A run keeps what the turns keep wherever `P` holds before them. -/
theorem groupRun_wp {I : GroupState → Session → Prop} {E : ReconError → Session → Prop}
    (hturn : ∀ kind, ∀ single ∈ GroupKind.singles internals externals kind, ∀ st s', I st s' →
      P kind st single s' → (groupTurn g kind (kind.pool internals externals)
        (s.view.rejectedPairs (ids internals)) st single).wp I E s')
    (hmeets : TurnsMeet g internals externals P s) (hstart : I {} s) :
    (groupRun g internals externals).wp (fun outcome s' => ∃ st, st.outcome = outcome ∧ I st s')
      E s := by
  rw [groupRun, wp_levelOn]
  refine wp_bind.mpr (((EachTurn.wp_foldlM (hturn .split) hmeets.1 hstart).and hmeets.2).mono
    (fun st s' h => ?_) fun _ _ h => h.1)
  refine wp_bind.mpr ((EachTurn.wp_foldlM (hturn .netted) h.2 h.1).mono
    (fun st' s'' h' => ?_) fun _ _ h => h)
  exact ⟨st', rfl, h'⟩

/-- A run returns exactly when `P` holds before every turn it comes to, if `P` says which turns
return. -/
theorem groupRun_returns {I : GroupState → Session → Prop}
    (hturn : ∀ kind, ∀ single ∈ GroupKind.singles internals externals kind, ∀ st s', I st s' →
      (groupTurn g kind (kind.pool internals externals) (s.view.rejectedPairs (ids internals)) st
          single).wp I (fun _ _ => True) s' ∧
        ((groupTurn g kind (kind.pool internals externals) (s.view.rejectedPairs (ids internals)) st
          single).wp (fun _ _ => True) (fun _ _ => False) s' ↔ P kind st single s'))
    (hstart : I {} s) :
    (groupRun g internals externals).wp (fun _ _ => True) (fun _ _ => False) s ↔
      TurnsMeet g internals externals P s := by
  have hkept : (internals.foldlM (groupTurn g .split externals (s.view.rejectedPairs (ids internals)))
      {}).wp I (fun _ _ => True) s :=
    wp_foldlM internals (fun t ht st s' h => (hturn .split t ht st s' h).1) {} s hstart
  have hsplit : (internals.foldlM (groupTurn g .split externals
      (s.view.rejectedPairs (ids internals))) {}).wp (fun _ _ => True) (fun _ _ => False) s ↔
        EachTurn (P .split) _ internals {} s :=
    foldlM_returns_iff (hturn .split) hstart
  have hnetted : ∀ st s', I st s' → ((do
      let st ← externals.foldlM (groupTurn g .netted internals
        (s.view.rejectedPairs (ids internals))) st
      return st.outcome : Prog GroupMatchOutcome).wp (fun _ _ => True) (fun _ _ => False) s' ↔
        EachTurn (P .netted) (groupTurn g .netted internals (s.view.rejectedPairs (ids internals)))
          externals st s') :=
    fun st s' h => wp_bind.trans (foldlM_returns_iff (hturn .netted) h)
  rw [groupRun, wp_levelOn, bind_eq, wp_bind, TurnsMeet]
  constructor
  · intro h
    refine ⟨hsplit.mp (h.mono (fun _ _ _ => trivial) fun _ _ h => h), ?_⟩
    exact (hkept.and h).mono (fun st s' h => (hnetted st s' h.1).mp h.2) fun _ _ _ => trivial
  · intro h
    exact ((hkept.and h.2).and (hsplit.mpr h.1)).mono
      (fun st s' h => (hnetted st s' h.1.1).mpr h.1.2) fun _ _ h => h.2

end

/-! ## Small examples -/

/-- One side of a group, by what tells it from the others. -/
def partOf (id : Id) (source : Source) (amountMinor : Int) (currency : String)
    (reference : String) : NormalisedTransaction where
  id := id
  rawTransactionId := id
  ingestionFileId := id
  source := source
  bankCode := "HDFC"
  sourceLineNo := none
  txnDate := 0
  settlementDate := none
  txnTimestampUtc := 0
  amountMinor := amountMinor
  currency := currency
  direction := .cr
  isReversal := false
  counterpartyNameNormalised := none
  narration := none
  narrationNormalised := none
  originalReferenceText := some reference
  normalisedReference := none
  matchStatus := .unmatched
  voidedOriginalId := none

def plainMatcher : GroupStrategy := { run := 0, config := {}, fx := false, audit := none }

def blankSession : Session where
  committed := {}
  supply := 0

end Recon
