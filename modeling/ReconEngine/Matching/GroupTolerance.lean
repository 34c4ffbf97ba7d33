import ReconEngine.Matching.GroupRaises
import ReconEngine.Matching.GroupSound

/-!
# Groups in one currency

The amounts of a link are compared in minor units when all its candidates have the currency of the
single side, and in INR within a percentage otherwise. What decides is the currencies of the
candidates and not of the members that are chosen.

**The law of agreement** (`groupRun_agrees`): in a run that comes to no link which mixes currencies,
every group in one currency agrees to `tolerance_minor`. A link mixes when the single side is in
another currency than INR, at least two of its candidates are in that currency and at least one is
not, and all of them have a rate. Candidates alone say so, not what is chosen of them.

**What it does not establish.** At a link that mixes, the group may agree all the same: that depends
on which subset of the converted amounts is the only one within the percentage.
-/

set_option autoImplicit false

namespace Recon

open Store.Prog hiding pure bind

/-! ## Agreement -/

/-- The members of the group have the currency of the single side. -/
def RecordedGroup.OneCurrency (group : RecordedGroup) : Prop :=
  ∀ m ∈ group.members, m.currency = group.single.currency

/-- By how many minor units the members miss the single side. -/
def RecordedGroup.difference (group : RecordedGroup) : Int :=
  (group.members.map (·.amountMinor)).sum - group.single.amountMinor

/-- A link in another currency than INR that is compared in INR, with enough candidates in the single
side's currency for a group. -/
structure LinkMixes (d : Db) (g : GroupStrategy) (single : NormalisedTransaction)
    (candidates : List NormalisedTransaction) : Prop where
  foreign : single.currency ≠ "INR"
  converted : Converted d g single candidates
  several : 2 ≤ (candidates.filter (·.currency == single.currency)).length

/-- A turn that comes to such a link. -/
def TurnMixes (d : Db) (g : GroupStrategy) (kind : GroupKind) (pool : List NormalisedTransaction)
    (rejected : List (Id × Id)) (consumed : List Id) (single : NormalisedTransaction) : Prop :=
  ComesTo d g kind pool rejected consumed single (LinkMixes d g single)

section

variable {d : Db} {g : GroupStrategy} {maxMembers : Nat} {single : NormalisedTransaction}
  {candidates : List NormalisedTransaction} {link : GroupLink} {confidence : Nat}
  {legs : GroupLegs} {s : Finset Nat} {solution : GroupSolution}

/-- The sum of some members, by their indices. -/
theorem sum_filterMap_get {α : Type} (f : α → Int) (xs : List α) :
    ∀ {is : List Nat}, (∀ i ∈ is, i < xs.length) →
      ((is.filterMap (xs[·]?)).map f).sum = (is.map fun i => (xs.map f).getD i 0).sum
  | [], _ => rfl
  | i :: is, h => by
    have hi := h i List.mem_cons_self
    have hget := List.getElem?_eq_getElem hi
    have hmap : (xs.map f).getD i 0 = f xs[i] := by
      rw [List.getD_eq_getElem _ _ (by rwa [List.length_map]), List.getElem_map]
    rw [List.filterMap_cons_some hget, List.map_cons, List.map_cons, List.sum_cons, List.sum_cons,
      hmap, sum_filterMap_get f xs fun j hj => h j (List.mem_cons_of_mem i hj)]

/-- The sum of the members at some indices is that of their amounts. -/
theorem sum_membersAt (hs : s ⊆ Finset.range candidates.length) :
    ((membersAt candidates s).map (·.amountMinor)).sum =
      sumAt (candidates.map (·.amountMinor)) s := by
  have hbelow : ∀ i ∈ s.sort, i < candidates.length := fun i hi =>
    Finset.mem_range.mp (hs ((Finset.mem_sort _).mp hi))
  have hsum := List.sum_toFinset (fun i => (candidates.map (·.amountMinor)).getD i 0)
    (Finset.sort_nodup s (· ≤ ·))
  rw [Finset.sort_toFinset] at hsum
  rw [membersAt, sum_filterMap_get _ _ hbelow, sumAt, hsum]

/-- Candidates in the single side's currency are compared in minor units. -/
theorem Db.legs_same (hsame : candidates.all (·.currency == single.currency) = true)
    (h : d.legs g single candidates = .ok (some legs)) :
    legs.amounts = candidates.map (·.amountMinor) ∧
      legs.low = single.amountMinor - g.config.toleranceMinor ∧
      legs.high = single.amountMinor + g.config.toleranceMinor := by
  unfold Db.legs groupLegs at h
  rw [if_pos hsame] at h
  cases h
  exact ⟨rfl, rfl, rfl⟩

/-- Legs that are converted have rates. -/
theorem allQuoted_of_legsInr : ∀ {ts : List NormalisedTransaction} {out : List Int},
    (legsInr ts).answer d = .ok (some out) → AllQuoted d ts
  | [], _, _ => fun _ h => absurd h List.not_mem_nil
  | t :: ts, out, h => by
    rw [legsInr, bind_eq, Reads.answer_bind (reads_legInr t)] at h
    obtain ⟨first, hfirst, h⟩ := except_bind_ok h
    cases hquote : d.quote t.currency t.txnDate with
    | none =>
      rw [legInr_unquoted hquote] at hfirst
      cases hfirst
      cases h
    | some q =>
      cases first with
      | none => cases h
      | some inr =>
        dsimp only at h
        rw [bind_eq, Reads.answer_bind (reads_legsInr ts)] at h
        obtain ⟨rest, hrest, h⟩ := except_bind_ok h
        cases rest with
        | none => cases h
        | some rest =>
          intro x hx
          rcases List.mem_cons.mp hx with rfl | hx
          · rw [hquote]
            rfl
          · exact allQuoted_of_legsInr hrest x hx

/-- Other candidates are converted. -/
theorem Db.legs_mixed (hmixed : candidates.all (·.currency == single.currency) = false)
    (h : d.legs g single candidates = .ok (some legs)) :
    legs.fx = true ∧ Converted d g single candidates := by
  unfold Db.legs groupLegs at h
  rw [if_neg (by rw [hmixed]; exact Bool.false_ne_true)] at h
  split at h
  · cases h
  · rename_i hfx
    rw [Bool.not_eq_true', Bool.not_eq_false] at hfx
    rw [bind_eq, Reads.answer_bind (reads_legsInr _)] at h
    obtain ⟨out, hout, h⟩ := except_bind_ok h
    split at h
    · rw [bind_eq, Reads.answer_bind (reads_ofExcept _)] at h
      obtain ⟨bounds, -, h⟩ := except_bind_ok h
      cases h
      exact ⟨rfl, hmixed, hfx, allQuoted_of_legsInr hout⟩
    · cases h

/-- A solution in INR alone is not made of converted amounts. -/
theorem groupSolution_foreign (hfx : legs.fx = true)
    (h : groupSolution single candidates link confidence legs s.sort = .ok solution) :
    ∃ t ∈ single :: solution.members, t.currency ≠ "INR" := by
  have hmembers := groupSolution_members h
  unfold groupSolution at h
  dsimp only at h
  rw [← hmembers, groupFx, if_pos hfx] at h
  obtain ⟨fx, hdetails, -⟩ := except_bind_ok h
  by_contra hall
  push Not at hall
  have hnone : (single :: solution.members).filter (·.currency != "INR") = [] :=
    List.filter_eq_nil_iff.mpr fun t ht => by simp [hall t ht]
  rw [fxDetails, hnone] at hdetails
  cases hdetails

/-- A solution among candidates in the single side's currency agrees to the tolerance. -/
theorem NamesSolution.difference_le
    (h : NamesSolution d g maxMembers single candidates link confidence legs s solution)
    (hsame : candidates.all (·.currency == single.currency) = true) :
    |(solution.members.map (·.amountMinor)).sum - single.amountMinor| ≤ g.config.toleranceMinor := by
  have hmembers : solution.members = membersAt candidates s := groupSolution_members h.made
  obtain ⟨hamounts, hlow, hhigh⟩ := Db.legs_same hsame h.compared
  have hallowed := h.named.allowed
  have hbelow := hallowed.below
  rw [hamounts, List.length_map] at hbelow
  have hlow' := hallowed.low
  have hhigh' := hallowed.high
  rw [hamounts, ← sum_membersAt hbelow, ← hmembers] at hlow' hhigh'
  rw [abs_le]
  omega

theorem filterMap_get_range {α : Type} : ∀ xs : List α,
    (List.range xs.length).filterMap (xs[·]?) = xs
  | [] => rfl
  | x :: xs => by
    have hfirst : (x :: xs)[0]? = some x := rfl
    rw [List.length_cons, List.range_succ_eq_map, List.filterMap_cons_some hfirst,
      List.filterMap_map]
    exact congrArg (x :: ·) (filterMap_get_range xs)

/-- The members at some indices are among the candidates, in order. -/
theorem membersAt_sublist (hs : s ⊆ Finset.range candidates.length) :
    (membersAt candidates s).Sublist candidates := by
  have hsubset : s.sort ⊆ List.range candidates.length := fun i hi =>
    List.mem_range.mpr (Finset.mem_range.mp (hs ((Finset.mem_sort _).mp hi)))
  have hsublist : s.sort.Sublist (List.range candidates.length) :=
    List.sublist_of_subperm_of_pairwise
      (List.subperm_of_subset (Finset.sort_nodup s (· ≤ ·)) hsubset)
      (Finset.pairwise_sort s (· ≤ ·)) List.pairwise_le_range
  have hmembers := hsublist.filterMap (candidates[·]?)
  rwa [filterMap_get_range] at hmembers

/-- There is a member for every index. -/
theorem membersAt_length (hs : s ⊆ Finset.range candidates.length) :
    (membersAt candidates s).length = s.card := by
  have hbelow : ∀ i ∈ s.sort, (candidates[i]?).isSome = true := fun i hi => by
    rw [isSome_getElem?]
    exact Finset.mem_range.mp (hs ((Finset.mem_sort _).mp hi))
  rw [membersAt, List.filterMap_length_eq_length.mpr hbelow, Finset.length_sort]

/-- A solution in one currency that is named by candidates in several mixes them. -/
theorem NamesSolution.mixes
    (h : NamesSolution d g maxMembers single candidates link confidence legs s solution)
    (hmixed : candidates.all (·.currency == single.currency) = false)
    (hone : ∀ m ∈ solution.members, m.currency = single.currency) :
    LinkMixes d g single candidates := by
  have hmembers : solution.members = membersAt candidates s := groupSolution_members h.made
  obtain ⟨hfx, hconverted⟩ := Db.legs_mixed hmixed h.compared
  refine ⟨fun hinr => ?_, hconverted, ?_⟩
  · obtain ⟨t, ht, hne⟩ := groupSolution_foreign hfx h.made
    rcases List.mem_cons.mp ht with rfl | ht
    · exact hne hinr
    · exact hne ((hone t ht).trans hinr)
  · have hsame : (membersAt candidates s).filter (·.currency == single.currency) =
        membersAt candidates s :=
      List.filter_eq_self.mpr fun m hm => beq_iff_eq.mpr (hone m (hmembers ▸ hm))
    have hbelow := h.named.allowed.below
    rw [Db.legs_length h.compared] at hbelow
    have hle := ((membersAt_sublist hbelow).filter (·.currency == single.currency)).length_le
    rw [hsame, membersAt_length hbelow] at hle
    exact h.named.allowed.atLeast.trans hle

/-- A named solution in one currency agrees unless the link mixes currencies. -/
theorem NamesSolution.agrees
    (h : NamesSolution d g maxMembers single candidates link confidence legs s solution)
    (hmixes : ¬ LinkMixes d g single candidates)
    (hone : ∀ m ∈ solution.members, m.currency = single.currency) :
    |(solution.members.map (·.amountMinor)).sum - single.amountMinor| ≤ g.config.toleranceMinor := by
  cases hsame : candidates.all (·.currency == single.currency) with
  | true => exact h.difference_le hsame
  | false => exact absurd (h.mixes hsame hone) hmixes

/-- Where all transactions have one currency, no link mixes. -/
theorem not_mixes_of_oneCurrency {kind : GroupKind} {pool : List NormalisedTransaction}
    {rejected : List (Id × Id)} {consumed : List Id}
    (h : ∀ t ∈ pool, t.currency = single.currency) :
    ¬ TurnMixes d g kind pool rejected consumed single := by
  intro hmixes
  have hall : ∀ candidates : List NormalisedTransaction, (∀ t ∈ candidates, t ∈ pool) →
      ¬ LinkMixes d g single candidates := by
    intro candidates hpool hlink
    have hsame : candidates.all (·.currency == single.currency) = true :=
      List.all_eq_true.mpr fun t ht => beq_iff_eq.mpr (h t (hpool t ht))
    rw [hlink.converted.mixed] at hsame
    cases hsame
  rcases hmixes.2 with hstem | ⟨-, hparty⟩
  · exact hall _ (fun t ht => (mem_stemCandidates.mp ht).2.inPool) hstem
  · exact hall _ (fun t ht => (mem_partyCandidates.mp ht).2.inPool) hparty

/-- In a run that comes to no link which mixes currencies, every group is one of the pools and agrees
where it is in one currency. -/
theorem groupRun_singles_agree {internals externals : List NormalisedTransaction} {s : Session}
    (hbelow : ∀ c ∈ s.view.claims, c.id < s.supply)
    (hmeets : TurnsMeet g internals externals (fun kind st single s' => ¬ TurnMixes s'.view g kind
      (kind.pool internals externals) (s.view.rejectedPairs (ids internals)) st.consumed single) s) :
    (groupRun g internals externals).wp (fun outcome s' => ∃ groups : List RecordedGroup,
        groups.map (·.id) = outcome.matchGroupIds ∧ GroupsRecorded g.run s.view s'.view groups ∧
        ∀ group ∈ groups, group.single ∈ internals ++ externals ∧
          (group.OneCurrency → |group.difference| ≤ g.config.toleranceMinor))
      (fun _ _ => True) s := by
  refine (groupRun_wp (I := GroupProgress g (fun group => group.single ∈ internals ++ externals ∧
    (group.OneCurrency → |group.difference| ≤ g.config.toleranceMinor)) s.view)
      (fun kind single hsingle st s' h hpure => groupTurn_progress
        (fun hunused solution outcome hanswer id => ⟨?_, fun hone => ?_⟩) h) hmeets
    (GroupProgress.start hbelow)).mono ?_ fun _ _ _ => trivial
  · cases kind with
    | split => exact List.mem_append_left _ hsingle
    | netted => exact List.mem_append_right _ hsingle
  · obtain ⟨-, hcomes⟩ := groupSolve_comesTo hunused hanswer
    -- The link that settles the single side does not mix.
    rcases hcomes with hstem | ⟨hnone, hparty⟩
    · obtain ⟨link, confidence, legs, t, hnames⟩ := hstem
      exact hnames.agrees (fun hmixes => hpure ⟨hunused, Or.inl hmixes⟩) hone
    · obtain ⟨link, confidence, legs, t, hnames⟩ := hparty
      exact hnames.agrees (fun hmixes => hpure ⟨hunused, Or.inr ⟨hnone, hmixes⟩⟩) hone
  · intro outcome s' h
    obtain ⟨st, rfl, groups, hids, -, hrecorded, hall⟩ := h
    exact ⟨groups, hids, hrecorded, hall⟩

/-- **Groups in one currency agree to the tolerance** in every run that comes to no link in another
currency than INR which mixes that currency with others. -/
theorem groupRun_agrees {internals externals : List NormalisedTransaction} {s : Session}
    (hbelow : ∀ c ∈ s.view.claims, c.id < s.supply)
    (hmeets : TurnsMeet g internals externals (fun kind st single s' => ¬ TurnMixes s'.view g kind
      (kind.pool internals externals) (s.view.rejectedPairs (ids internals)) st.consumed single) s) :
    (groupRun g internals externals).wp (fun outcome s' => ∃ groups : List RecordedGroup,
        groups.map (·.id) = outcome.matchGroupIds ∧ GroupsRecorded g.run s.view s'.view groups ∧
        ∀ group ∈ groups, group.OneCurrency → |group.difference| ≤ g.config.toleranceMinor)
      (fun _ _ => True) s := by
  refine (groupRun_singles_agree hbelow hmeets).mono ?_ fun _ _ _ => trivial
  intro outcome s' h
  obtain ⟨groups, hids, hrecorded, hall⟩ := h
  exact ⟨groups, hids, hrecorded, fun group hgroup => (hall group hgroup).2⟩

end

/-- The parts of the invoice agree. -/
theorem groupRun_agrees_invoice :
    (groupRun plainMatcher [invoice] [firstPart, secondPart]).wp (fun outcome s' =>
        ∃ groups : List RecordedGroup, groups.map (·.id) = outcome.matchGroupIds ∧
          GroupsRecorded plainMatcher.run invoiceDay.view s'.view groups ∧
          ∀ group ∈ groups, group.OneCurrency →
            |group.difference| ≤ plainMatcher.config.toleranceMinor)
      (fun _ _ => True) invoiceDay := by
  refine @groupRun_agrees plainMatcher [invoice] [firstPart, secondPart] invoiceDay (fun _ hc => absurd hc List.not_mem_nil)
    (TurnsMeet.of_all fun kind single hsingle st s' => not_mixes_of_oneCurrency ?_)
  cases kind with
  | split =>
    rw [List.mem_singleton.mp hsingle]
    decide
  | netted =>
    have hinr : ∀ t ∈ [firstPart, secondPart], t.currency = "INR" := by decide
    intro t ht
    rw [hinr single hsingle, List.mem_singleton.mp ht]
    decide

/-! ## Dollars that are compared in rupees -/

/-- An invoice of 100 dollars; two parts that add up to 101 share its reference with a payment in
rupees. -/
def foreignInvoice : NormalisedTransaction := partOf 1 .internal 10000 "USD" "PAY-100"

def foreignParts : List NormalisedTransaction :=
  [partOf 2 .external 6000 "USD" "PAY-100-1", partOf 3 .external 4100 "USD" "PAY-100-2",
    partOf 4 .external 20000 "INR" "PAY-100-3"]

/-- The parts are recorded as a group, and they are a dollar off. -/
theorem foreignInvoice_strays : ∃ (groups : List RecordedGroup) (outcome : GroupMatchOutcome)
      (s' : Session),
    (groupRun convertingMatcher [foreignInvoice] foreignParts).exec
      (dayWithRate 80 (foreignInvoice :: foreignParts)) = (.ok outcome, s') ∧
    groups.map (·.id) = outcome.matchGroupIds ∧
    GroupsRecorded convertingMatcher.run
      (dayWithRate 80 (foreignInvoice :: foreignParts)).view s'.view groups ∧
    ∃ group ∈ groups, group.OneCurrency ∧
      convertingMatcher.config.toleranceMinor < |group.difference| := by
  let day := dayWithRate 80 (foreignInvoice :: foreignParts)
  let run := (groupRun convertingMatcher [foreignInvoice] foreignParts).exec day
  have hrun : run.1 = .ok { splitGroups := 1, matchGroupIds := [9] } := by decide +kernel
  let solution : GroupSolution :=
    { members := foreignParts.take 2, confidence := 900, link := .referenceStem
      fx := some { foreignCurrency := "USD", foreignAmountMinor := 20100, singleInrMinor := 800000
                   membersInrMinor := 808000, impliedRateInr := none, variancePercent := 199 / 200 }
      singleMinor := 800000, membersMinor := 808000 }
  refine ⟨[{ kind := .split, single := foreignInvoice, solution := solution, id := 9 }], _, run.2,
    Prod.ext hrun rfl, rfl, ?_, _, List.mem_singleton_self _, ?_, ?_⟩
  · constructor
    case results => decide +kernel
    case disjoint => decide +kernel
    case unclaimed => decide +kernel
    case claims => exact ⟨run.2.view.claims, by decide +kernel, by decide +kernel, by decide +kernel⟩
    case statuses => decide +kernel
  · intro m hm
    have hdollar : ∀ m ∈ foreignParts.take 2, m.currency = "USD" := by decide +kernel
    exact hdollar m hm
  · decide +kernel

end Recon
