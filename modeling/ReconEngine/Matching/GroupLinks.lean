import ReconEngine.Matching.GroupUnique

/-!
# The weaker link

`_solve` goes on to the counterparty when the reference stem settles nothing, for whatever reason.
An undecided search on the stem is therefore no obstacle to a claim: it is made exactly when the
candidates of the counterparty settle the single side by themselves and no side is claimed yet.
Recording a group raises nothing, so what is claimed depends on these conditions alone.

**The law** (`groupTurn_unclaimed_iff`): after an undecided stem the turn claims nothing if and only
if the counterparty settles nothing, or the single was used up before.

**What it does not establish.** That the group of the counterparty is wrong. It is a unique solution
of its own candidates, found after the stem had shown that there are several of its own.
-/

set_option autoImplicit false

namespace Recon

open Store.Prog hiding pure bind

/-! ## Recording raises nothing -/

theorem validateItems_texts : ∀ (texts : List String) (path : String) (index : Nat),
    validateItems (texts.map .str) path index = .ok (texts.map .str)
  | [], _, _ => rfl
  | text :: texts, path, index => by
    rw [List.map_cons, validateItems, validateJsonValue, validateItems_texts texts]
    rfl

/-- An entry whose values are JSON has a hash. -/
theorem computeHash_total {sha256 : ByteArray → String} {f : AuditEntryFields}
    {affected before after : JsonText.Json} (hversion : f.serialisationVersion = serialisationVersion)
    (haware : f.occurredAt.aware = true)
    (haffected : validateJsonValue f.affectedRecords "affected_records" = .ok affected)
    (hbefore : validateJsonValue f.beforeState "before_state" = .ok before)
    (hafter : validateJsonValue f.afterState "after_state" = .ok after) :
    ∃ hash, computeHash sha256 f = .ok hash := by
  have hbytes : ∃ bytes, canonicalBytes f = .ok bytes := by
    unfold canonicalBytes
    rw [if_neg (not_not.mpr hversion), if_neg (by rw [haware]; decide), haffected, hbefore, hafter]
    exact ⟨_, rfl⟩
  obtain ⟨bytes, hbytes⟩ := hbytes
  exact ⟨sha256 bytes, by rw [computeHash, hbytes]; rfl⟩

section

variable {g : GroupStrategy} {kind : GroupKind} {single : NormalisedTransaction}
  {solution : GroupSolution}

/-- The entry of a group can be hashed. -/
theorem groupEvent_hashes (sha256 : ByteArray → String) (group eventId : Id) (now : Instant)
    (head : Option AuditLog) : ∃ hash, computeHash sha256
      ((groupEvent kind single solution group now).entry eventId head) = .ok hash := by
  have hmembers := validateItems_texts (solution.members.map fun m => toString m.id)
  rw [List.map_map] at hmembers
  have haffected : ∃ j, validateJsonValue
      (groupEvent kind single solution group now).affectedRecords "affected_records" = .ok j := by
    simp only [groupEvent, validateJsonValue, validateEntries]
    rw [show (solution.members.map fun m => PyValue.str (toString m.id)) =
      solution.members.map (PyValue.str ∘ fun m => toString m.id) from rfl, hmembers]
    exact ⟨_, rfl⟩
  obtain ⟨affected, haffected⟩ := haffected
  have hafter : ∃ j, validateJsonValue (groupEvent kind single solution group now).afterState
      "after_state" = .ok j := ⟨_, rfl⟩
  obtain ⟨after, hafter⟩ := hafter
  exact computeHash_total rfl rfl haffected rfl hafter

/-- The entry of a group is appended. -/
theorem auditIf_group_total (audit : Option Auditor) (group : Id) (s : Session) :
    (auditIf audit (groupEvent kind single solution group)).wp (fun _ _ => True)
      (fun _ _ => False) s := by
  cases audit with
  | none => trivial
  | some a =>
    have hactor : actorTypes.contains "SYSTEM" = true := by decide
    obtain ⟨hash, hhash⟩ := @groupEvent_hashes kind single solution a.logger.sha256.hexdigest group
      s.supply a.now (s.view.chain matchingChain).getLast?
    have happend := @AuditLogger.append_exec a.logger
      (groupEvent kind single solution group a.now) s hash hactor rfl hhash
    rw [auditIf, bind_eq, wp_bind]
    unfold wp
    rw [happend]
    trivial

/-- Recording the members does not fail. -/
theorem recordMembers_total (columns : NormalisedTransaction → MatchColumns)
    (singleClaim : MatchClaim) :
    ∀ (first : Bool) (rest : List (NormalisedTransaction × MatchClaim)) (s : Session),
      (recordMembers columns singleClaim first rest).wp (fun _ _ => True) (fun _ _ => False) s
  | _, [], _ => trivial
  | first, (member, claim) :: rest, s => by
    simp only [recordMembers, finalise, bind_eq, wp_bind, wp_newId, wp_put]
    cases first with
    | true => exact recordMembers_total columns singleClaim false rest _
    | false => exact recordMembers_total columns singleClaim false rest _

/-- A group is recorded exactly when its sides are free. -/
theorem groupRecord_total (s : Session) :
    (groupRecord g kind single solution).wp
      (fun out _ => out.isSome = true ↔ s.view.Free (groupSides kind single solution.members))
      (fun _ _ => False) s := by
  rw [groupRecord, bind_eq, wp_bind]
  refine (claimGroup_spec _ s).mono ?_ fun _ _ h => h.elim
  intro claims s₁ h
  obtain ⟨-, h⟩ := h
  cases claims with
  | none => exact iff_of_false Bool.false_ne_true h.1
  | some claims =>
    obtain ⟨hfree, rfl, -⟩ := h
    refine wp_bind.mpr (wp_newId.mpr (wp_bind.mpr ?_))
    refine (recordMembers_total _ _ true _ _).mono ?_ fun _ _ h => h
    intro _ s₂ _
    refine wp_bind.mpr ((auditIf_group_total g.audit _ s₂).mono ?_ fun _ _ h => h)
    intro _ s₃ _
    refine wp_bind.mpr ((markAll_spec _ s₃).mono ?_ fun _ _ h => h)
    exact fun _ _ _ => ⟨fun _ => hfree, fun _ => rfl⟩

end

/-! ## What the candidates of a link name -/

/-- The amounts name one group: the whole linked set when it fits, and otherwise the only set of
positive amounts that does, found within the limits of the search. -/
def NamesGroup (config : GroupMatchConfig) (maxMembers : Nat) (legs : GroupLegs) (s : Finset Nat) :
    Prop :=
  (WholeFits legs maxMembers ∧ s = Finset.range legs.amounts.length) ∨
    (¬ WholeFits legs maxMembers ∧ legs.amounts.length ≤ config.maxSearchCandidates ∧
      legs.low ≤ legs.high ∧ 2 ≤ maxMembers ∧
      ¬ OutgrowsLimit legs.amounts legs.high maxMembers config.maxDpStates ∧
      FittingSet legs.amounts legs.low legs.high 2 maxMembers s ∧
      ∀ t, FittingSet legs.amounts legs.low legs.high 2 maxMembers t → t = s)

/-- The candidates name a group, and its solution can be made. -/
structure NamesSolution (d : Db) (g : GroupStrategy) (maxMembers : Nat)
    (single : NormalisedTransaction) (candidates : List NormalisedTransaction) (link : GroupLink)
    (confidence : Nat) (legs : GroupLegs) (s : Finset Nat) (solution : GroupSolution) : Prop where
  several : 2 ≤ candidates.length
  compared : d.legs g single candidates = .ok (some legs)
  named : NamesGroup g.config maxMembers legs s
  made : groupSolution single candidates link confidence legs s.sort = .ok solution

section

variable {config : GroupMatchConfig} {maxMembers n : Nat} {legs : GroupLegs} {found : SubsetSearch}
  {s : Finset Nat}

theorem sort_indices (hincreasing : found.indices.Pairwise (· < ·)) :
    found.indices.toFinset.sort = found.indices :=
  (List.toFinset_sort _ (hincreasing.imp Nat.ne_of_lt)).mpr (hincreasing.imp Nat.le_of_lt)

/-- A unique choice is one that the amounts name. -/
theorem NamesGroup.of_choice (hlen : legs.amounts.length = n)
    (h : chooseMembers config maxMembers legs n = .ok found) (hu : found.outcome = .unique) :
    NamesGroup config maxMembers legs found.indices.toFinset := by
  rw [← hlen] at h
  unfold chooseMembers at h
  split at h
  · rename_i hwhole
    cases h
    refine Or.inl ⟨hwhole, ?_⟩
    ext i
    simp
  · rename_i hwhole
    split at h
    · cases h
      cases hu
    · rename_i hfew
      obtain ⟨hrange, -, hmax⟩ := findUniqueSubset_asked h
      obtain ⟨-, hfits, honly⟩ := findUniqueSubset_unique h hu
      obtain ⟨found', hrun, hcases⟩ :=
        findUniqueSubset_spec config.maxDpStates hrange (by decide) hmax
      obtain rfl : found' = found := Except.ok.inj (hrun.symm.trans h)
      rcases hcases with ⟨hcomplex, -⟩ | ⟨hsmall, -⟩
      · rw [hu] at hcomplex
        cases hcomplex
      · exact Or.inr ⟨hwhole, Nat.not_lt.mp hfew, hrange, hmax, hsmall, hfits, honly⟩

/-- The indices of a named group. -/
theorem NamesGroup.allowed (h : NamesGroup config maxMembers legs s) :
    AllowedSet legs maxMembers s := by
  rcases h with ⟨hwhole, rfl⟩ | ⟨-, -, -, -, -, hfits, -⟩
  · exact hwhole.allowed
  · exact AllowedSet.of_fitting hfits

/-- A named group is chosen. -/
theorem NamesGroup.choice (hlen : legs.amounts.length = n)
    (h : NamesGroup config maxMembers legs s) :
    ∃ found, chooseMembers config maxMembers legs n = .ok found ∧ found.outcome = .unique ∧
      found.indices = s.sort := by
  subst hlen
  unfold chooseMembers
  rcases h with ⟨hwhole, rfl⟩ | ⟨hwhole, hfew, hrange, hmax, hsmall, hfits, honly⟩
  · exact ⟨_, if_pos hwhole, rfl, (Finset.sort_range _).symm⟩
  · unfold WholeFits at hwhole
    rw [if_neg hwhole, if_neg (Nat.not_lt.mpr hfew)]
    obtain ⟨found, hrun, hcases⟩ :=
      findUniqueSubset_spec config.maxDpStates hrange (by decide) hmax
    rcases hcases with ⟨-, hbig⟩ | ⟨-, hanswer, hset⟩
    · exact absurd hbig hsmall
    · have hu := hanswer.iffs.1.mpr ⟨s, hfits, honly⟩
      obtain ⟨hincreasing, hfound, -⟩ := hset hu
      refine ⟨found, hrun, hu, ?_⟩
      rw [← sort_indices hincreasing, honly _ hfound]

end

section

variable {d : Db} {g : GroupStrategy} {maxMembers : Nat} {single : NormalisedTransaction}
  {candidates pool : List NormalisedTransaction} {link : GroupLink} {confidence : Nat}
  {outcome : GroupMatchOutcome} {solution : GroupSolution} {rejected : List (Id × Id)}
  {consumed : List Id}

/-- A link settles the single side exactly when its candidates name a solution. -/
theorem groupLink_names :
    (groupLink g maxMembers single candidates link confidence outcome).answer d =
        .ok (some solution, outcome) ↔
      ∃ legs s, NamesSolution d g maxMembers single candidates link confidence legs s solution := by
  rw [groupLink_some, and_iff_right rfl]
  constructor
  · intro h
    obtain ⟨legs, found, hsettles⟩ := h
    have hlen := Db.legs_length hsettles.compared
    obtain ⟨hincreasing, -⟩ := chooseMembers_indices hlen hsettles.chosen hsettles.unique
    refine ⟨legs, _, hsettles.several, hsettles.compared,
      NamesGroup.of_choice hlen hsettles.chosen hsettles.unique, ?_⟩
    rw [sort_indices hincreasing]
    exact hsettles.made
  · intro h
    obtain ⟨legs, s, hnames⟩ := h
    obtain ⟨found, hchosen, hunique, hindices⟩ :=
      hnames.named.choice (Db.legs_length hnames.compared)
    exact ⟨legs, found, hnames.several, hnames.compared, hchosen, hunique,
      hindices ▸ hnames.made⟩

/-- A turn comes to a link whose candidates satisfy `P`: those that share the stem or, when the stem
settles nothing, those of the same counterparty. -/
def ComesTo (d : Db) (g : GroupStrategy) (kind : GroupKind) (pool : List NormalisedTransaction)
    (rejected : List (Id × Id)) (consumed : List Id) (single : NormalisedTransaction)
    (P : List NormalisedTransaction → Prop) : Prop :=
  single.id ∉ consumed ∧ (P (stemCandidates g rejected consumed single pool) ∨
    (¬ ∃ legs s solution, NamesSolution d g (kind.maxMembers g.config) single
      (stemCandidates g rejected consumed single pool) .referenceStem 950 legs s solution) ∧
    P (partyCandidates g.config rejected consumed single pool))

/-- A solution is one that the candidates of a link name to which the turn comes. -/
theorem groupSolve_comesTo {kind : GroupKind} {outcome' : GroupMatchOutcome}
    (hunused : single.id ∉ consumed)
    (h : (groupSolve g (kind.maxMembers g.config) pool rejected consumed outcome single).answer d =
      .ok (some solution, outcome')) :
    ComesTo d g kind pool rejected consumed single fun candidates =>
      ∃ link confidence legs s, NamesSolution d g (kind.maxMembers g.config) single candidates link
        confidence legs s solution := by
  refine ⟨hunused, ?_⟩
  rw [groupSolve_answer] at h
  obtain ⟨first, hfirst, h⟩ := except_bind_ok h
  obtain ⟨settled, counted⟩ := first
  cases settled with
  | some settled =>
    cases h
    obtain ⟨rfl, -⟩ := groupLink_some.mp hfirst
    obtain ⟨legs, s, hnames⟩ := groupLink_names.mp hfirst
    exact Or.inl ⟨_, _, legs, s, hnames⟩
  | none =>
    refine Or.inr ⟨fun hnames => ?_, ?_⟩
    · obtain ⟨legs, s, solution', hnames⟩ := hnames
      have hsettled := (@groupLink_names d g _ single _ _ _ outcome _).mpr ⟨legs, s, hnames⟩
      rw [hfirst] at hsettled
      cases hsettled
    · obtain ⟨rfl, -⟩ := groupLink_some.mp h
      obtain ⟨legs, s, hnames⟩ := groupLink_names.mp h
      exact ⟨_, _, legs, s, hnames⟩

/-! ## Undecided stems -/

/-- The search among the candidates is ambiguous or too complex. -/
def Undecided (d : Db) (g : GroupStrategy) (maxMembers : Nat) (single : NormalisedTransaction)
    (candidates : List NormalisedTransaction) : Prop :=
  2 ≤ candidates.length ∧ ∃ legs found, d.legs g single candidates = .ok (some legs) ∧
    chooseMembers g.config maxMembers legs candidates.length = .ok found ∧
    (found.outcome = .ambiguous ∨ found.outcome = .tooComplex)

/-- An undecided link settles nothing and is counted. -/
theorem Undecided.answer (h : Undecided d g maxMembers single candidates) :
    ∃ counted, (groupLink g maxMembers single candidates link confidence outcome).answer d =
      .ok (none, counted) := by
  obtain ⟨hseveral, legs, found, hlegs, hfound, houtcome⟩ := h
  unfold groupLink
  rw [if_neg (Nat.not_lt.mpr hseveral), groupFit_answer, hlegs]
  change ∃ counted, searchFit g maxMembers single candidates link confidence outcome (some legs) = _
  rw [searchFit, hfound]
  change ∃ counted, concludeFit single candidates link confidence outcome legs found = _
  unfold concludeFit
  rcases houtcome with hambiguous | hcomplex
  · rw [hambiguous]
    exact ⟨_, rfl⟩
  · rw [hcomplex]
    exact ⟨_, rfl⟩

/-- After an undecided stem the counterparty has the last word. -/
theorem Undecided.solve
    (h : Undecided d g maxMembers single (stemCandidates g rejected consumed single pool)) :
    ∃ counted, (groupSolve g maxMembers pool rejected consumed outcome single).answer d =
      (groupLink g maxMembers single (partyCandidates g.config rejected consumed single pool)
        .counterparty 900 counted).answer d := by
  obtain ⟨counted, hcounted⟩ := @Undecided.answer _ _ _ _ _ .referenceStem 950 outcome h
  exact ⟨counted, by rw [groupSolve_answer, hcounted]; rfl⟩

end

/-! ## Claims of a turn -/

/-- The turn of the single side records a group. -/
def ClaimsGroup (g : GroupStrategy) (kind : GroupKind) (pool : List NormalisedTransaction)
    (rejected : List (Id × Id)) (st : GroupState) (single : NormalisedTransaction) (s : Session) :
    Prop :=
  ∃ st' s' id, (groupTurn g kind pool rejected st single).exec s = (.ok st', s') ∧
    st'.outcome.matchGroupIds = st.outcome.matchGroupIds ++ [id]

/-- The candidates of the counterparty name a solution whose sides no claim holds. -/
def PartySettles (d : Db) (g : GroupStrategy) (kind : GroupKind) (pool : List NormalisedTransaction)
    (rejected : List (Id × Id)) (consumed : List Id) (single : NormalisedTransaction) : Prop :=
  ∃ legs s solution, NamesSolution d g (kind.maxMembers g.config) single
      (partyCandidates g.config rejected consumed single pool) .counterparty 900 legs s solution ∧
    d.Free (groupSides kind single solution.members)

section

variable {g : GroupStrategy} {kind : GroupKind} {pool : List NormalisedTransaction}
  {rejected : List (Id × Id)} {st : GroupState} {single : NormalisedTransaction} {s : Session}

/-- **An undecided stem is left for a human exactly when the counterparty settles nothing.** -/
theorem groupTurn_unclaimed_iff (hundecided : Undecided s.view g (kind.maxMembers g.config) single
    (stemCandidates g rejected st.consumed single pool)) :
    ¬ ClaimsGroup g kind pool rejected st single s ↔ single.id ∈ st.consumed ∨
      ¬ PartySettles s.view g kind pool rejected st.consumed single := by
  obtain ⟨counted, hsolve⟩ :=
    @Undecided.solve _ _ _ _ pool st.outcome rejected st.consumed hundecided
  -- The solver's answer is what the counterparty settles.
  have hsome : ∀ solution, (∃ legs t, NamesSolution s.view g (kind.maxMembers g.config) single
      (partyCandidates g.config rejected st.consumed single pool) .counterparty 900 legs t
        solution) → (groupSolve g (kind.maxMembers g.config) pool rejected st.consumed st.outcome
          single).answer s.view = .ok (some solution, counted) := fun solution hnames =>
    hsolve.trans (groupLink_names.mpr hnames)
  have hnot : (∀ solution, (groupSolve g (kind.maxMembers g.config) pool rejected st.consumed
      st.outcome single).answer s.view ≠ .ok (some solution, counted)) →
      ¬ PartySettles s.view g kind pool rejected st.consumed single := by
    intro hnone h
    obtain ⟨legs, t, solution, hnames, -⟩ := h
    exact hnone solution (hsome solution ⟨legs, t, hnames⟩)
  have hturn : (groupTurn g kind pool rejected st single).wp
      (fun st' _ => (∃ id, st'.outcome.matchGroupIds = st.outcome.matchGroupIds ++ [id]) ↔
        single.id ∉ st.consumed ∧ PartySettles s.view g kind pool rejected st.consumed single)
      (fun _ _ => ¬ PartySettles s.view g kind pool rejected st.consumed single) s := by
    have hsame : ∀ st' : GroupState, st'.outcome.matchGroupIds = st.outcome.matchGroupIds →
        ¬ ∃ id, st'.outcome.matchGroupIds = st.outcome.matchGroupIds ++ [id] := by
      intro st' hids h
      obtain ⟨id, h⟩ := h
      have hlen := congrArg List.length (hids.symm.trans h)
      rw [List.length_append, List.length_singleton] at hlen
      omega
    refine groupTurn_wp (fun hused => ?_) (fun _ e hanswer => ?_) (fun outcome hanswer => ?_)
      fun hunused solution outcome hanswer => ?_
    · exact iff_of_false (hsame st rfl) fun h => h.1 hused
    · exact hnot fun solution hsolution => by
        rw [hanswer] at hsolution
        cases hsolution
    · refine iff_of_false (hsame _ (groupSolve_groups hanswer)) fun h => hnot ?_ h.2
      intro solution hsolution
      rw [hanswer] at hsolution
      cases hsolution
    · refine (groupRecord_total s).mono ?_ fun _ _ h => h.elim
      intro out s' hfree
      rw [GroupState.concluded_groups, groupSolve_groups hanswer, and_iff_right hunused]
      have hlink := hsolve.symm.trans hanswer
      obtain ⟨rfl, -⟩ := groupLink_some.mp hlink
      obtain ⟨legs, t, hnames⟩ := groupLink_names.mp hlink
      constructor
      · intro h
        obtain ⟨id, h⟩ := h
        have hout : out.toList = [id] := List.append_cancel_left h
        refine ⟨legs, t, solution, hnames, hfree.mp ?_⟩
        cases out with
        | none => cases hout
        | some _ => rfl
      · intro h
        obtain ⟨legs', t', solution', hnames', hfree'⟩ := h
        have heq : solution' = solution := by
          have h' := (hsome solution' ⟨legs', t', hnames'⟩).symm.trans hanswer
          exact Option.some.inj (Prod.mk.inj (Except.ok.inj h')).1
        obtain ⟨id, hid⟩ := Option.isSome_iff_exists.mp (hfree.mpr (heq ▸ hfree'))
        exact ⟨id, by rw [hid]; rfl⟩
  unfold wp at hturn
  rw [ClaimsGroup, not_iff_comm, not_or, not_not]
  rcases hexec : (groupTurn g kind pool rejected st single).exec s with ⟨result, s'⟩
  rw [hexec] at hturn
  cases result with
  | error e =>
    refine iff_of_false (fun h => hturn h.2) fun h => ?_
    obtain ⟨st', s', id, hok, -⟩ := h
    cases hok
  | ok st' =>
    refine Iff.trans hturn.symm ⟨fun h => ?_, fun h => ?_⟩
    · obtain ⟨id, h⟩ := h
      exact ⟨st', s', id, rfl, h⟩
    · obtain ⟨_, _, id, hok, h⟩ := h
      cases hok
      exact ⟨id, h⟩

end

/-! ## An ambiguous invoice that is paid by chance -/

/-- An invoice of 100 with the parts 60, 40 and 40 under its reference, and with two other payments
of its counterparty that add up to 100. -/
def doubtfulInvoice : NormalisedTransaction :=
  { partOf 1 .internal 100 "INR" "PAY-100" with counterpartyNameNormalised := some "ACME" }

def doubtfulParts : List NormalisedTransaction :=
  [partOf 2 .external 60 "INR" "PAY-100-1", partOf 3 .external 40 "INR" "PAY-100-2",
    partOf 4 .external 40 "INR" "PAY-100-3"]

def otherPayments : List NormalisedTransaction :=
  [{ partOf 5 .external 70 "INR" "" with counterpartyNameNormalised := some "ACME" },
    { partOf 6 .external 30 "INR" "" with counterpartyNameNormalised := some "ACME" }]

def doubtfulDay (pool : List NormalisedTransaction) : Session where
  committed := { transactions := doubtfulInvoice :: pool }
  supply := 7

/-- The stem names two groups, the part of 60 with either part of 40. -/
theorem doubtful_stem {pool : List NormalisedTransaction} (hstem : stemCandidates plainMatcher
    [] [] doubtfulInvoice pool = doubtfulParts) :
    Undecided (doubtfulDay pool).view plainMatcher (GroupKind.split.maxMembers plainMatcher.config)
      doubtfulInvoice (stemCandidates plainMatcher []
        ({} : GroupState).consumed doubtfulInvoice pool) := by
  rw [show ({} : GroupState).consumed = [] from rfl, hstem]
  exact ⟨by decide, { target := 100, amounts := [60, 40, 40], low := 99, high := 101, fx := false },
    { outcome := .ambiguous }, rfl, by decide +kernel, Or.inl rfl⟩

/-- Without the other payments nothing is claimed. -/
theorem groupTurn_unclaimed_iff_parts :
    ¬ ClaimsGroup plainMatcher .split doubtfulParts [] {} doubtfulInvoice
      (doubtfulDay doubtfulParts) := by
  have hundecided := @doubtful_stem doubtfulParts (by decide +kernel)
  have hparty : (partyCandidates plainMatcher.config [] ({} : GroupState).consumed doubtfulInvoice
      doubtfulParts).length = 0 := by decide +kernel
  refine (groupTurn_unclaimed_iff hundecided).mpr (Or.inr fun h => ?_)
  obtain ⟨legs, t, solution, hnames, -⟩ := h
  have hseveral := hnames.several
  omega

/-- With them the ambiguous stem ends in a claim. -/
theorem doubtfulInvoice_claimed :
    Undecided (doubtfulDay (doubtfulParts ++ otherPayments)).view plainMatcher
        (GroupKind.split.maxMembers plainMatcher.config) doubtfulInvoice
        (stemCandidates plainMatcher [] ({} : GroupState).consumed doubtfulInvoice
          (doubtfulParts ++ otherPayments)) ∧
      ClaimsGroup plainMatcher .split (doubtfulParts ++ otherPayments) [] {} doubtfulInvoice
        (doubtfulDay (doubtfulParts ++ otherPayments)) := by
  refine ⟨doubtful_stem (by decide +kernel), ?_⟩
  have hrun : ((groupTurn plainMatcher .split (doubtfulParts ++ otherPayments) [] {}
      doubtfulInvoice).exec (doubtfulDay (doubtfulParts ++ otherPayments))).1.map
        (fun st => st.outcome.matchGroupIds) = .ok [10] := by decide +kernel
  rcases hexec : (groupTurn plainMatcher .split (doubtfulParts ++ otherPayments) [] {}
    doubtfulInvoice).exec (doubtfulDay (doubtfulParts ++ otherPayments)) with ⟨result, s'⟩
  rw [hexec] at hrun
  cases result with
  | error e => cases hrun
  | ok st' => exact ⟨st', s', 10, hexec, Except.ok.inj hrun⟩

end Recon
