import ReconEngine.Matching.GroupFit

/-!
# Group matching is sound

What `GroupMatchingStrategy.run` leaves behind is described by the list of the groups it recorded:
their rows are the new results, their transactions have the new claims and the status MATCHED, and
nothing else has changed. No two groups share a transaction, because a group is only recorded when
none of its sides holds an ACTIVE claim and every recorded side does.

**The law** (`groupRun_sound`): the recorded groups are disjoint, of two to the largest size, of one
direction and within the window, their members are linked to the single side and not rejected with
it, and the claims and statuses are those of the groups and no others.

**What it does not establish.** That a group is the only one of its kind (`Matching.GroupUnique`),
nor that its amounts agree in their own currency (`Matching.GroupTolerance`).
-/

set_option autoImplicit false

namespace Recon

open Store.Prog hiding pure bind

/-! ## Recorded groups -/

/-- The internal and the external side of a member pairing. -/
def GroupKind.pairing (single member : NormalisedTransaction) : GroupKind → Id × Id
  | .split => (single.id, member.id)
  | .netted => (member.id, single.id)

/-- A group with the identifier it was recorded under. -/
structure RecordedGroup where
  kind : GroupKind
  single : NormalisedTransaction
  solution : GroupSolution
  id : Nat

namespace RecordedGroup

def members (group : RecordedGroup) : List NormalisedTransaction := group.solution.members

def transactions (group : RecordedGroup) : List Id := group.single.id :: ids group.members

/-- Its result rows, one for each member. -/
def rows (run : Id) (group : RecordedGroup) : List MatchResult :=
  resultRows (group.id + 1)
    (group.members.map (groupColumns run group.kind group.single group.solution group.id))

end RecordedGroup

/-- A group that a pass over these pools may record, with the rejections of `d`. -/
structure RecordedGroup.Sound (g : GroupStrategy)
    (internals externals : List NormalisedTransaction) (d : Db) (group : RecordedGroup) : Prop where
  single : group.single ∈ group.kind.singles internals externals
  atLeast : 2 ≤ group.members.length
  atMost : group.members.length ≤ group.kind.maxMembers g.config
  opposite : ∀ m ∈ group.members, m ∈ group.kind.pool internals externals ∧
    m.source ≠ group.single.source
  direction : ∀ m ∈ group.members, m.direction = group.single.direction
  window : ∀ m ∈ group.members, daysApart m group.single ≤ g.config.dateWindowDays
  linked : ∀ m ∈ group.members, SharesLink g group.single m
  notRejected : ∀ m ∈ group.members,
    ¬ d.Rejected (group.kind.pairing group.single m).1 (group.kind.pairing group.single m).2

/-- From `before` to `after` the groups were recorded and nothing else happened to results, claims
and statuses. -/
structure GroupsRecorded (run : Id) (before after : Db) (groups : List RecordedGroup) : Prop where
  results : after.results = before.results ++ groups.flatMap (·.rows run)
  disjoint : (groups.flatMap (·.transactions)).Nodup
  unclaimed : ∀ t ∈ groups.flatMap (·.transactions), before.isClaimed t = false
  claims : ∃ new, after.claims = before.claims ++ new ∧
    new.map (·.normalisedTransactionId) = groups.flatMap (·.transactions) ∧
    ∀ c ∈ new, c.status = .active
  statuses : after.transactions =
    (before.setStatus .matched (groups.flatMap (·.transactions))).transactions

/-- How many ACTIVE claims a transaction holds. -/
def Db.activeClaimCount (d : Db) (t : Id) : Nat :=
  d.claims.countP fun c => c.normalisedTransactionId == t && c.status == .active

section

variable {run : Id} {before after : Db} {groups : List RecordedGroup}

/-- Before the first turn nothing is recorded. -/
theorem GroupsRecorded.start (run : Id) (d : Db) : GroupsRecorded run d d [] where
  results := (List.append_nil _).symm
  disjoint := List.nodup_nil
  unclaimed _ ht := absurd ht List.not_mem_nil
  claims := ⟨[], (List.append_nil _).symm, rfl, fun _ hc => absurd hc List.not_mem_nil⟩
  statuses := congrArg Db.transactions (Db.setStatus_no_ids .matched d).symm

theorem Db.activeClaimCount_of_unclaimed {d : Db} {t : Id} (h : d.isClaimed t = false) :
    d.activeClaimCount t = 0 := by
  rw [activeClaimCount, List.countP_eq_zero]
  intro c hc
  rw [Db.isClaimed_eq_false] at h
  simpa using fun ht ha => h c hc ha ht

/-- Every transaction of a group has one ACTIVE claim. -/
theorem GroupsRecorded.one_claim (h : GroupsRecorded run before after groups) {t : Id}
    (ht : t ∈ groups.flatMap (·.transactions)) : after.activeClaimCount t = 1 := by
  obtain ⟨new, hclaims, htransactions, hactive⟩ := h.claims
  have hnew : (new.countP fun c => c.normalisedTransactionId == t && c.status == .active) =
      (new.map (·.normalisedTransactionId)).count t := by
    rw [List.count, List.countP_map]
    refine List.countP_congr fun c hc => ?_
    simp [hactive c hc]
  have hbefore := Db.activeClaimCount_of_unclaimed (h.unclaimed t ht)
  rw [Db.activeClaimCount] at hbefore
  rw [Db.activeClaimCount, hclaims, List.countP_append, hnew, htransactions,
    List.count_eq_one_of_mem h.disjoint ht, hbefore]

/-- The transactions of recorded groups are MATCHED. -/
theorem GroupsRecorded.matched (h : GroupsRecorded run before after groups) {t : Id}
    (ht : t ∈ groups.flatMap (·.transactions)) {row : NormalisedTransaction}
    (hrow : row ∈ after.transactions) (hid : row.id = t) : row.matchStatus = .matched := by
  rw [h.statuses] at hrow
  obtain ⟨old, -, hold, hstatus⟩ := Db.mem_setStatus hrow
  rw [hstatus, if_pos (by rwa [hold, hid])]

/-- The transactions of a group are claimed. -/
theorem GroupsRecorded.claimed (h : GroupsRecorded run before after groups) {t : Id}
    (ht : t ∈ groups.flatMap (·.transactions)) : after.isClaimed t = true := by
  obtain ⟨new, hclaims, htransactions, hactive⟩ := h.claims
  rw [← htransactions] at ht
  obtain ⟨c, hc, rfl⟩ := List.mem_map.mp ht
  exact Db.isClaimed_eq_true.mpr
    ⟨c, hclaims ▸ List.mem_append_right _ hc, hactive c hc, rfl⟩

/-- What was unclaimed afterwards was unclaimed before. -/
theorem GroupsRecorded.unclaimed_before (h : GroupsRecorded run before after groups) {t : Id}
    (ht : after.isClaimed t = false) : before.isClaimed t = false := by
  obtain ⟨new, hclaims, -⟩ := h.claims
  rw [Db.isClaimed_eq_false] at ht ⊢
  exact fun c hc => ht c (hclaims ▸ List.mem_append_left _ hc)

/-- One more group, on sides that no claim held. -/
theorem GroupsRecorded.add {after' : Db} (h : GroupsRecorded run before after groups)
    (group : RecordedGroup) {cs : List MatchClaim} (hnodup : group.transactions.Nodup)
    (hfree : ∀ t ∈ group.transactions, after.isClaimed t = false)
    (hcs : cs.map (·.normalisedTransactionId) = group.transactions)
    (hactive : ∀ c ∈ cs, c.status = .active)
    (hresults : after'.results = after.results ++ group.rows run)
    (hclaims : after'.claims = after.claims ++ cs)
    (htransactions : after'.transactions = (after.setStatus .matched group.transactions).transactions) :
    GroupsRecorded run before after' (groups ++ [group]) where
  results := by
    rw [hresults, h.results, List.flatMap_append, List.flatMap_singleton, List.append_assoc]
  disjoint := by
    rw [List.flatMap_append, List.flatMap_singleton]
    refine h.disjoint.append hnodup fun t hold hnew => ?_
    have := h.claimed hold
    rw [hfree t hnew] at this
    cases this
  unclaimed t ht := by
    rw [List.flatMap_append, List.flatMap_singleton] at ht
    rcases List.mem_append.mp ht with hold | hnew
    · exact h.unclaimed t hold
    · exact h.unclaimed_before (hfree t hnew)
  claims := by
    obtain ⟨new, hbefore, hnew, hactive'⟩ := h.claims
    refine ⟨new ++ cs, by rw [hclaims, hbefore, List.append_assoc], ?_, fun c hc => ?_⟩
    · rw [List.map_append, hnew, hcs, List.flatMap_append, List.flatMap_singleton]
    · rcases List.mem_append.mp hc with hc | hc
      · exact hactive' c hc
      · exact hactive c hc
  statuses := by
    rw [htransactions, List.flatMap_append, List.flatMap_singleton,
      ← Db.setStatus_setStatus .matched _ _ before]
    simp only [Db.setStatus, Db.updateTransaction]
    rw [h.statuses]
    rfl

end

/-! ## Recording -/

section

variable {g : GroupStrategy} {kind : GroupKind} {single : NormalisedTransaction}
  {solution : GroupSolution} {before : Db} {groups : List RecordedGroup}

/-- A group that is skipped has changed nothing. -/
theorem groupRecord_skipped (s : Session) :
    (groupRecord g kind single solution).wp (fun out s' => out = none → s'.view = s.view)
      (fun _ _ => True) s := by
  rw [groupRecord, bind_eq, wp_bind]
  refine (claimGroup_spec _ s).mono ?_ fun _ _ h => h.elim
  intro claims s₁ h
  obtain ⟨-, h⟩ := h
  cases claims with
  | none => exact fun _ => h.2
  | some claims =>
    cases claims with
    | nil =>
      intro _
      rw [h.2.2.1, Db.record_nil]
    | cons singleClaim memberClaims =>
      -- From here on the program ends with the identifier of the group.
      have hends : (do
          let group ← newId
          recordMembers (groupColumns g.run kind single solution group) singleClaim true
            (solution.members.zip memberClaims)
          auditIf g.audit (groupEvent kind single solution group)
          markAll (single.id :: ids solution.members)
          return some group : Prog (Option Id)).Returns fun out => out ≠ none :=
        (returns_true _).bind fun group _ => (returns_true _).bind fun _ _ =>
          (returns_true _).bind fun _ _ => (returns_true _).bind fun _ _ => Option.some_ne_none group
      refine (hends.wp (wp_trivial _ _)).mono (fun out s' hout hnone => ?_) fun _ _ _ => trivial
      exact absurd hnone hout.1

/-- The trail leaves results, claims and statuses. -/
theorem auditIf_leaves (audit : Option Auditor) (event : Instant → AuditEvent) (s : Session) :
    (auditIf audit event).wp
      (fun _ s' => s.supply ≤ s'.supply ∧ s'.view.results = s.view.results ∧
        s'.view.claims = s.view.claims ∧ s'.view.transactions = s.view.transactions)
      (fun _ _ => True) s := by
  have hwork : (auditIf audit event).Work fun w => ∃ row, w = RowWrite.insertAudit row :=
    auditIf_work audit fun _ row _ => ⟨row, rfl⟩
  refine (hwork.wp_keeps (f := fun d : Db => (d.results, d.claims, d.transactions)) ?_ s).mono ?_
    fun _ _ _ => trivial
  · rintro _ d ⟨row, rfl⟩
    rfl
  · rintro _ s' ⟨hsupply, hkept⟩
    obtain ⟨hresults, hrest⟩ := Prod.mk.inj hkept
    exact ⟨hsupply, hresults, Prod.mk.inj hrest⟩

/-- Recording adds the group to those recorded so far, or skips it. -/
theorem groupRecord_recorded {s : Session} (hne : solution.members ≠ [])
    (hbelow : ∀ c ∈ s.view.claims, c.id < s.supply)
    (h : GroupsRecorded g.run before s.view groups) :
    (groupRecord g kind single solution).wp
      (fun out s' => (∀ c ∈ s'.view.claims, c.id < s'.supply) ∧
        GroupsRecorded g.run before s'.view
          (groups ++ (out.map fun id => RecordedGroup.mk kind single solution id).toList))
      (fun _ _ => True) s := by
  refine groupRecord_spec hne hbelow (fun s' hsupply hview => ?_) ?_
  · rw [hview]
    refine ⟨fun c hc => Nat.lt_of_lt_of_le (hbelow c hc) hsupply, ?_⟩
    rw [Option.map_none, Option.toList_none, List.append_nil]
    exact h
  intro s₂ group singleRole memberRole sides rows hfree hgroup hs₂ hview₂
  have hnodup : (single.id :: ids solution.members).Nodup := by
    have hall := hfree.1
    rw [List.map_cons, List.map_map] at hall
    exact hall
  have hunclaimed : ∀ t ∈ single.id :: ids solution.members, s.view.isClaimed t = false := by
    intro t ht
    rcases List.mem_cons.mp ht with rfl | ht
    · exact hfree.2 _ List.mem_cons_self
    · obtain ⟨m, hm, rfl⟩ := List.mem_map.mp ht
      exact hfree.2 _ (List.mem_cons_of_mem _ (List.mem_map_of_mem hm))
  have hclaimTxns : (rows.map (·.2)).map (·.normalisedTransactionId) = ids solution.members :=
    groupRows_transactions (group + 1) (s.supply + 1) solution.members memberRole
  have hclaimRows : ∀ c ∈ rows.map (·.2), c.status = .active ∧ c.id < s₂.supply := by
    intro c hc
    obtain ⟨p, hp, rfl⟩ := List.mem_map.mp hc
    obtain ⟨q, hq, -, hclaim⟩ := mem_groupRows hp
    have hq' := mem_claimRows (List.of_mem_zip hq).2
    rw [List.length_map] at hq'
    rw [hclaim]
    exact ⟨hq'.2.2, Nat.lt_of_lt_of_le hq'.2.1 (by omega)⟩
  have hresults : rows.map (·.1) =
      (RecordedGroup.mk kind single solution group).rows g.run := by
    have hfst := List.map_fst_zip (Nat.le_of_eq
      (memberClaims_length (s.supply + 1) solution.members memberRole).symm)
    rw [groupRows_results, RecordedGroup.rows, RecordedGroup.members]
    conv_rhs => rw [← hfst, List.map_map]
    rfl
  refine wp_bind.mpr ((auditIf_leaves g.audit _ s₂).mono ?_ fun _ _ _ => trivial)
  rintro _ s₃ ⟨hs₃, hresults₃, hclaims₃, htransactions₃⟩
  refine wp_bind.mpr ((markAll_spec _ s₃).mono ?_ fun _ _ _ => trivial)
  rintro _ s₄ ⟨hview₄, hs₄⟩
  have hclaims₄ : s₄.view.claims = s.view.claims ++
      ({ id := s.supply, normalisedTransactionId := single.id, matchResultId := some (group + 1),
         role := singleRole, status := .active } :: rows.map (·.2)) := by
    rw [hview₄]
    change s₃.view.claims = _
    rw [hclaims₃, hview₂]
    rfl
  constructor
  · rw [hclaims₄]
    intro c hc
    rcases List.mem_append.mp hc with hc | hc
    · exact Nat.lt_of_lt_of_le (hbelow c hc) (by omega)
    · rcases List.mem_cons.mp hc with rfl | hc
      · exact Nat.lt_of_lt_of_le (Nat.lt_succ_self s.supply) (by omega)
      · exact Nat.lt_of_lt_of_le (hclaimRows c hc).2 (by omega)
  · refine h.add (RecordedGroup.mk kind single solution group) hnodup hunclaimed ?_ ?_ ?_ hclaims₄ ?_
    · rw [List.map_cons, hclaimTxns]
      rfl
    · intro c hc
      rcases List.mem_cons.mp hc with rfl | hc
      · rfl
      · exact (hclaimRows c hc).1
    · rw [hview₄, ← hresults]
      change s₃.view.results = _
      rw [hresults₃, hview₂]
      rfl
    · rw [hview₄]
      simp only [Db.setStatus, Db.updateTransaction, htransactions₃, hview₂]
      rfl

end

/-! ## The run -/

/-- The groups recorded since `d₀` are those of the outcome, and satisfy `R`. -/
def GroupProgress (g : GroupStrategy) (R : RecordedGroup → Prop) (d₀ : Db) (st : GroupState)
    (s : Session) : Prop :=
  ∃ groups : List RecordedGroup, groups.map (·.id) = st.outcome.matchGroupIds ∧
    (∀ c ∈ s.view.claims, c.id < s.supply) ∧ GroupsRecorded g.run d₀ s.view groups ∧
    ∀ group ∈ groups, R group

section

variable {g : GroupStrategy} {kind : GroupKind} {internals externals : List NormalisedTransaction}
  {single : NormalisedTransaction} {solution : GroupSolution} {d₀ : Db}

/-- What the solver says of its members makes the group sound. -/
theorem groupSolve_sound_group (hi : ∀ t ∈ internals, t.source = .internal)
    (he : ∀ t ∈ externals, t.source = .external) {consumed : List Id} {d : Db}
    {outcome outcome' : GroupMatchOutcome} (hsingle : single ∈ kind.singles internals externals)
    (h : (groupSolve g (kind.maxMembers g.config) (kind.pool internals externals)
      (d₀.rejectedPairs (ids internals)) consumed outcome single).answer d =
        .ok (some solution, outcome')) (id : Nat) :
    (RecordedGroup.mk kind single solution id).Sound g internals externals d₀ := by
  obtain ⟨htwo, hmax, hmem⟩ := groupSolve_members h
  constructor
  case single => exact hsingle
  case atLeast => exact htwo
  case atMost => exact hmax
  case direction => exact fun m hm => (hmem m hm).2.direction
  case window => exact fun m hm => (hmem m hm).2.window
  case linked => exact fun m hm => (hmem m hm).1
  case opposite =>
    intro m hm
    have hpool := (hmem m hm).2.inPool
    refine ⟨hpool, ?_⟩
    cases kind with
    | split =>
      rw [hi single hsingle, he m hpool]
      exact nofun
    | netted =>
      rw [he single hsingle, hi m hpool]
      exact nofun
  case notRejected =>
    intro m hm hrejected
    have hpool := (hmem m hm).2.inPool
    have hnot := (hmem m hm).2.notRejected
    cases kind with
    | split =>
      rw [isRejectedPairing, if_pos (hi single hsingle), List.contains_eq_mem,
        decide_eq_false_iff_not] at hnot
      exact hnot (Db.mem_rejectedPairs.mpr ⟨List.mem_map_of_mem hsingle, hrejected⟩)
    | netted =>
      rw [isRejectedPairing, if_neg (by rw [he single hsingle]; exact nofun),
        List.contains_eq_mem, decide_eq_false_iff_not] at hnot
      exact hnot (Db.mem_rejectedPairs.mpr ⟨List.mem_map_of_mem hpool, hrejected⟩)

theorem GroupProgress.start {R : RecordedGroup → Prop} {s : Session}
    (hbelow : ∀ c ∈ s.view.claims, c.id < s.supply) : GroupProgress g R s.view {} s :=
  ⟨[], rfl, hbelow, GroupsRecorded.start g.run s.view, fun _ h => absurd h List.not_mem_nil⟩

/-- A turn adds a group that satisfies `R` when all that the solver answers do. -/
theorem groupTurn_progress {pool : List NormalisedTransaction} {rejected : List (Id × Id)}
    {R : RecordedGroup → Prop} {st : GroupState} {s : Session}
    (hR : single.id ∉ st.consumed → ∀ solution outcome,
      (groupSolve g (kind.maxMembers g.config) pool rejected st.consumed st.outcome single).answer
        s.view = .ok (some solution, outcome) → ∀ id, R (RecordedGroup.mk kind single solution id))
    (h : GroupProgress g R d₀ st s) :
    (groupTurn g kind pool rejected st single).wp (GroupProgress g R d₀) (fun _ _ => True) s := by
  obtain ⟨groups, hids, hbelow, hrecorded, hall⟩ := h
  refine groupTurn_wp (fun _ => ⟨groups, hids, hbelow, hrecorded, hall⟩) (fun _ _ _ => trivial)
    (fun outcome hanswer => ?_) fun hunused solution outcome hanswer => ?_
  · exact ⟨groups, hids.trans (groupSolve_groups hanswer).symm, hbelow, hrecorded, hall⟩
  · have hne : solution.members ≠ [] :=
      List.ne_nil_of_length_pos (Nat.lt_of_lt_of_le Nat.two_pos (groupSolve_members hanswer).1)
    refine (groupRecord_recorded hne hbelow hrecorded).mono ?_ fun _ _ h => h
    intro out s' h
    refine ⟨_, ?_, h.1, h.2, fun group hgroup => ?_⟩
    · rw [GroupState.concluded_groups, groupSolve_groups hanswer, ← hids, List.map_append]
      cases out <;> rfl
    · rcases List.mem_append.mp hgroup with hold | hnew
      · exact hall group hold
      · cases out with
        | none => exact absurd hnew List.not_mem_nil
        | some id =>
          rw [List.mem_singleton.mp hnew]
          exact hR hunused solution outcome hanswer id

/-- **Group matching is sound.** A run records groups that have no transaction in common; every
one of them is a group the pass may form, and each of its transactions holds one ACTIVE claim and
is MATCHED. Nothing else changes: a group that is skipped on a conflict leaves everything as it
was. -/
theorem groupRun_sound (g : GroupStrategy) {internals externals : List NormalisedTransaction}
    {s : Session} (hi : ∀ t ∈ internals, t.source = .internal)
    (he : ∀ t ∈ externals, t.source = .external)
    (hpools : ∀ t ∈ internals ++ externals, t ∈ s.view.transactions)
    (hbelow : ∀ c ∈ s.view.claims, c.id < s.supply) :
    (groupRun g internals externals).wp (fun outcome s' => ∃ groups : List RecordedGroup,
        groups.map (·.id) = outcome.matchGroupIds ∧ GroupsRecorded g.run s.view s'.view groups ∧
        (∀ group ∈ groups, group.Sound g internals externals s.view) ∧
        ∀ t ∈ groups.flatMap (·.transactions), s'.view.activeClaimCount t = 1 ∧
          ∃ row ∈ s'.view.transactions, row.id = t ∧ row.matchStatus = .matched)
      (fun _ _ => True) s ∧
    ∀ kind single solution s₁, (groupRecord g kind single solution).wp
      (fun out s₂ => out = none → s₂.view = s₁.view) (fun _ _ => True) s₁ := by
  refine ⟨(groupRun_wp (P := fun _ _ _ _ => True) (fun kind single hsingle st s' h _ =>
    groupTurn_progress (fun _ _ _ hanswer => groupSolve_sound_group hi he hsingle hanswer) h)
    (TurnsMeet.of_all fun _ _ _ _ _ => trivial) (GroupProgress.start hbelow)).mono ?_
      fun _ _ _ => trivial, fun kind single solution s₁ => groupRecord_skipped s₁⟩
  intro outcome s' h
  obtain ⟨st, rfl, groups, hids, -, hrecorded, hsound⟩ := h
  refine ⟨groups, hids, hrecorded, hsound, fun t ht => ⟨hrecorded.one_claim ht, ?_⟩⟩
  -- The transaction is in one of the pools, so it has a row.
  obtain ⟨group, hgroup, hmem⟩ := List.mem_flatMap.mp ht
  have hin : ∃ row ∈ s.view.transactions, row.id = t := by
    have hpool : ∀ x, x ∈ group.kind.singles internals externals ∨
        x ∈ group.kind.pool internals externals → x ∈ s.view.transactions := by
      intro x hx
      refine hpools x (List.mem_append.mpr ?_)
      cases hkind : group.kind with
      | split => rwa [hkind] at hx
      | netted => rwa [hkind, or_comm] at hx
    rcases List.mem_cons.mp hmem with rfl | hmem
    · exact ⟨_, hpool _ (Or.inl (hsound group hgroup).single), rfl⟩
    · obtain ⟨m, hm, rfl⟩ := List.mem_map.mp hmem
      exact ⟨m, hpool m (Or.inr ((hsound group hgroup).opposite m hm).1), rfl⟩
  obtain ⟨row, hrow, hid⟩ := @Db.mem_setStatus_ids .matched
    (groups.flatMap (·.transactions)) s.view t hin
  rw [← hrecorded.statuses] at hrow
  exact ⟨row, hrow, hid, hrecorded.matched ht hrow hid⟩

end

/-! ## An invoice paid in two parts -/

def invoice : NormalisedTransaction := partOf 1 .internal 10000 "INR" "PAY-100"

def firstPart : NormalisedTransaction := partOf 2 .external 6000 "INR" "PAY-100-1"

def secondPart : NormalisedTransaction := partOf 3 .external 4000 "INR" "PAY-100-2"

def invoiceDay : Session where
  committed := { transactions := [invoice, firstPart, secondPart] }
  supply := 4

/-- The parts are recorded as one group. -/
theorem groupRun_sound_invoice : ∃ (groups : List RecordedGroup) (s' : Session), groups.map (·.id) = [7] ∧
    GroupsRecorded 0 invoiceDay.view s'.view groups ∧
    ∀ t ∈ groups.flatMap (·.transactions), s'.view.activeClaimCount t = 1 := by
  have hrun : ((groupRun plainMatcher [invoice] [firstPart, secondPart]).exec invoiceDay).1 =
      .ok { splitGroups := 1, matchGroupIds := [7] } := by decide +kernel
  have h := (@groupRun_sound plainMatcher [invoice] [firstPart, secondPart] invoiceDay (by decide)
    (by decide) (fun _ ht => ht) fun _ hc => absurd hc List.not_mem_nil).1
  unfold wp at h
  rcases hexec : (groupRun plainMatcher [invoice] [firstPart, secondPart]).exec invoiceDay with
    ⟨r, s'⟩
  rw [hexec] at h hrun
  cases hrun
  obtain ⟨groups, hids, hrecorded, -, hclaims⟩ := h
  exact ⟨groups, s', hids, hrecorded, fun t ht => (hclaims t ht).1⟩

end Recon
