import ReconEngine.Matching.Exact
import ReconEngine.Matching.Fx
import ReconEngine.Matching.SubsetSum

/-!
# Split and netted matching

`GroupMatchingStrategy` matches one internal settled as several externals (SPLIT) and several
internals settled as one external (NETTED), among transactions that a reference stem or a
counterparty links. The whole linked set is tried first, then the bounded subset sum; a group is
claimed only when the solution is unique. Every member pairing becomes one result row of the
group, and the single side's claim is attached to the first row.

The texts of the rationale and the figures of the audit entry are left out.

**The laws** (`groupRecord_spec`, `groupRecord_workable`, `groupRun_onPools`, `groupRun_grouped`):
recording a group claims nothing when a side is not free, and otherwise adds its rows and claims
under a new identifier; a pass keeps to the rejections and to one shared side for each group.

**What they do not establish.** Which group is found. The search is `Matching.UniqueSubset`, what a
link decides is `Matching.GroupFit`, and the description of a whole run is `Matching.GroupSound`.
-/

set_option autoImplicit false

namespace Recon

open Store.Prog hiding pure bind

structure GroupMatchConfig where
  maxSplitMembers : Nat := 10
  maxNettedMembers : Nat := 50
  maxSearchCandidates : Nat := 24
  maxDpStates : Nat := 200000
  dateWindowDays : Nat := 2
  toleranceMinor : Int := 1
  fxTolerancePercent : Rat := 3 / 2
  counterpartyPrefixLength : Nat := 8
  minStemLength : Nat := 4
deriving DecidableEq, Repr

structure GroupMatchOutcome where
  splitGroups : Nat := 0
  nettedGroups : Nat := 0
  ambiguousCount : Nat := 0
  tooComplexCount : Nat := 0
  missingFxCount : Nat := 0
  skippedClaimConflictCount : Nat := 0
  matchGroupIds : List Id := []
deriving DecidableEq, Repr

inductive GroupKind where
  | split
  | netted
deriving DecidableEq, Repr

/-- What the strategy is constructed with; `fx` tells whether it has a rate service, and `upper` is
what it uses of the standard library. -/
structure GroupStrategy where
  run : Id
  config : GroupMatchConfig
  fx : Bool
  audit : Option Auditor
  upper : String → String := String.toUpper

/-! ## Links -/

/-- `text.strip().upper()`. -/
def stripUpper (upper : String → String) (text : String) : List Char :=
  (upper (String.ofList
    ((text.toList.dropWhile pythonBlank).reverse.dropWhile pythonBlank).reverse)).toList

def isStemSeparator (c : Char) : Bool := ['-', '_', '/', '.'].contains c

def maxStemSuffix : Nat := 6

/-- The reference without its trailing sequence component. -/
def referenceStem (upper : String → String) (originalReference : Option String) (minLength : Nat) :
    Option (List Char) := do
  let original ← originalReference
  if original.isEmpty then
    none
  else
    let text := stripUpper upper original
    let suffix := (text.reverse.takeWhile fun c => !isStemSeparator c).length
    let stem := text.take (text.length - suffix - 1)
    if text.any isStemSeparator && suffix ≤ maxStemSuffix && minLength ≤ stem.length then
      some stem
    else
      none

/-- A transaction's own stem and its whole reference. -/
def stemKeys (upper : String → String) (t : NormalisedTransaction) (minLength : Nat) :
    List (List Char) :=
  let original := stripUpper upper (t.originalReferenceText.getD "")
  (if minLength ≤ original.length then [original] else []) ++
    (referenceStem upper t.originalReferenceText minLength).toList

/-- `counterparty_key`; `none` when the source has no counterparty name. -/
def counterpartyKey (name : Option String) (prefixLength : Nat) : Option (List Char) := do
  let text ← name
  if text.isEmpty then none else some (text.toList.take prefixLength)

/-- A person unmatched this pairing earlier. -/
def isRejectedPairing (rejected : List (Id × Id)) (single member : NormalisedTransaction) : Bool :=
  if single.source = .internal then rejected.contains (single.id, member.id)
  else rejected.contains (member.id, single.id)

/-- `_candidates` over the transactions of the pool that share a key with the single side. -/
def groupCandidates (config : GroupMatchConfig) (rejected : List (Id × Id)) (consumed : List Id)
    (single : NormalisedTransaction) (linked : NormalisedTransaction → Bool)
    (pool : List NormalisedTransaction) : List NormalisedTransaction :=
  (pool.filter fun t =>
    linked t && !consumed.contains t.id && !isRejectedPairing rejected single t &&
      t.direction == single.direction && decide (daysApart t single ≤ config.dateWindowDays)
    ).insertionSort fun a b => ((compare a.txnDate b.txnDate).then (compare a.id b.id)).isLE = true

/-! ## Solving -/

inductive GroupLink where
  | referenceStem
  | counterparty
deriving DecidableEq, Repr

/-- What a cross-currency group records of its conversion, without the reference rate. -/
structure FxDetails where
  foreignCurrency : String
  foreignAmountMinor : Int
  singleInrMinor : Int
  membersInrMinor : Int
  impliedRateInr : Option Rat
  variancePercent : Rat
deriving DecidableEq, Repr

/-- `_Solution`. -/
structure GroupSolution where
  members : List NormalisedTransaction
  confidence : Nat
  link : GroupLink
  fx : Option FxDetails
  singleMinor : Int
  membersMinor : Int
deriving DecidableEq, Repr

/-- The amounts to compare, in one currency. -/
structure GroupLegs where
  target : Int
  amounts : List Int
  low : Int
  high : Int
  fx : Bool
deriving DecidableEq, Repr

/-- The integer bounds within which |a - b| / mean(a, b) is at most the tolerance. -/
def fxBounds (tolerancePercent : Rat) (target : Int) : Except ReconError (Int × Int) :=
  let t := rounded (tolerancePercent / 100)
  let below := rounded (2 - t)
  let above := rounded (2 + t)
  if above = 0 ∨ below = 0 then
    .error (.arithmetic (if target = 0 then "InvalidOperation" else "DivisionByZero"))
  else .ok (⌈rounded (rounded (target * below) / above)⌉, ⌊rounded (rounded (target * above) / below)⌋)

def legsInr : List NormalisedTransaction → Prog (Option (List Int))
  | [] => return some []
  | t :: ts => do
    match ← legInr t with
    | none => return none
    | some inr =>
      match ← legsInr ts with
      | none => return none
      | some rest => return some (inr :: rest)

/-- `_legs`; `none` when a needed rate is unavailable. -/
def groupLegs (g : GroupStrategy) (single : NormalisedTransaction)
    (candidates : List NormalisedTransaction) : Prog (Option GroupLegs) := do
  if candidates.all (·.currency == single.currency) then
    return some { target := single.amountMinor, amounts := candidates.map (·.amountMinor),
                  low := single.amountMinor - g.config.toleranceMinor,
                  high := single.amountMinor + g.config.toleranceMinor, fx := false }
  else if !g.fx then
    return none
  else
    match ← legsInr (single :: candidates) with
    | some (target :: amounts) => do
      let bounds ← ofExcept (fxBounds g.config.fxTolerancePercent target)
      return some { target := target, amounts := amounts, low := bounds.1, high := bounds.2,
                    fx := true }
    | _ => return none

/-- Which candidates settle the single side: the whole linked set, or a unique subset. -/
def chooseMembers (config : GroupMatchConfig) (maxMembers : Nat) (legs : GroupLegs)
    (candidates : Nat) : Except ReconError SubsetSearch :=
  if 2 ≤ candidates ∧ candidates ≤ maxMembers ∧ legs.low ≤ legs.amounts.sum ∧
      legs.amounts.sum ≤ legs.high then
    .ok { outcome := .unique, indices := List.range candidates, total := legs.amounts.sum }
  else if candidates > config.maxSearchCandidates then
    .ok { outcome := .tooComplex }
  else
    findUniqueSubset legs.amounts legs.low legs.high 2 maxMembers config.maxDpStates

/-- An implied rate is only meaningful for a plain two-currency group: the foreign side all in one
currency, the other side all INR. -/
def groupImpliedRate (single : NormalisedTransaction) (members foreignLegs : List NormalisedTransaction)
    (foreignCurrency : String) (foreignTotal singleInr membersInr : Int) :
    Except ReconError (Option Rat) :=
  let singleIsForeign := single.currency ≠ "INR"
  let otherSideInr := if singleIsForeign then members.all (·.currency == "INR")
    else foreignLegs.length == members.length
  if foreignLegs.all (·.currency == foreignCurrency) && otherSideInr then
    impliedRate (if singleIsForeign then membersInr else singleInr) foreignTotal foreignCurrency
  else .ok none

/-- The text of a rate that is missing or zero is left out. -/
def quantizeRate : Option Rat → Except ReconError (Option Rat)
  | none => .ok none
  | some rate => if rate = 0 then .ok none else (quantizeFour rate).map some

/-- `_fx_details`; indexing the foreign legs fails when there are none. -/
def fxDetails (single : NormalisedTransaction) (members : List NormalisedTransaction)
    (singleInr membersInr : Int) : Except ReconError FxDetails :=
  match (single :: members).filter (·.currency != "INR") with
  | [] => .error (.indexError "list index out of range")
  | foreign :: rest => do
    let foreignTotal := ((foreign :: rest).map (·.amountMinor)).sum
    let rate ← groupImpliedRate single members (foreign :: rest) foreign.currency foreignTotal
      singleInr membersInr
    let implied ← quantizeRate rate
    let variance ← quantizeFour (relativeDifferencePercent singleInr membersInr)
    return { foreignCurrency := foreign.currency, foreignAmountMinor := foreignTotal
             singleInrMinor := singleInr, membersInrMinor := membersInr
             impliedRateInr := implied, variancePercent := variance }

/-- Only a converted comparison has details. -/
def groupFx (single : NormalisedTransaction) (members : List NormalisedTransaction)
    (legs : GroupLegs) (membersMinor : Int) : Except ReconError (Option FxDetails) :=
  if legs.fx then (fxDetails single members legs.target membersMinor).map some else .ok none

/-- The solution that a unique choice of candidates makes. -/
def groupSolution (single : NormalisedTransaction) (candidates : List NormalisedTransaction)
    (link : GroupLink) (confidence : Nat) (legs : GroupLegs) (chosen : List Nat) :
    Except ReconError GroupSolution := do
  let members := chosen.filterMap (candidates[·]?)
  let membersMinor := (chosen.map fun i => legs.amounts.getD i 0).sum
  let fx ← groupFx single members legs membersMinor
  return { members := members, confidence := if fx.isSome then 900 else confidence, link := link
           fx := fx, singleMinor := legs.target, membersMinor := membersMinor }

/-- `_fit`: the solution for one set of candidates, or the counter that says why there is none. -/
def groupFit (g : GroupStrategy) (maxMembers : Nat) (single : NormalisedTransaction)
    (candidates : List NormalisedTransaction) (link : GroupLink) (confidence : Nat)
    (outcome : GroupMatchOutcome) : Prog (Option GroupSolution × GroupMatchOutcome) := do
  match ← groupLegs g single candidates with
  | none => return (none, { outcome with missingFxCount := outcome.missingFxCount + 1 })
  | some legs =>
    match chooseMembers g.config maxMembers legs candidates.length with
    | .error e => .fail e
    | .ok found =>
      match found.outcome with
      | .ambiguous =>
        return (none, { outcome with ambiguousCount := outcome.ambiguousCount + 1 })
      | .tooComplex =>
        return (none, { outcome with tooComplexCount := outcome.tooComplexCount + 1 })
      | .none => return (none, outcome)
      | .unique => do
        let solution ← ofExcept
          (groupSolution single candidates link confidence legs found.indices)
        return (some solution, outcome)

/-- One link of `_solve`: a single candidate is no group. -/
def groupLink (g : GroupStrategy) (maxMembers : Nat) (single : NormalisedTransaction)
    (candidates : List NormalisedTransaction) (link : GroupLink) (confidence : Nat)
    (outcome : GroupMatchOutcome) : Prog (Option GroupSolution × GroupMatchOutcome) :=
  if candidates.length < 2 then return (none, outcome)
  else groupFit g maxMembers single candidates link confidence outcome

/-- The candidates that share a reference stem with the single side. -/
def stemCandidates (g : GroupStrategy) (rejected : List (Id × Id)) (consumed : List Id)
    (single : NormalisedTransaction) (pool : List NormalisedTransaction) :
    List NormalisedTransaction :=
  groupCandidates g.config rejected consumed single
    (fun t => (stemKeys g.upper t g.config.minStemLength).any
      (stemKeys g.upper single g.config.minStemLength).contains)
    pool

/-- An empty key counts as none. -/
def partyKey (config : GroupMatchConfig) (t : NormalisedTransaction) : Option (List Char) :=
  (counterpartyKey t.counterpartyNameNormalised config.counterpartyPrefixLength).filter
    (!·.isEmpty)

/-- The candidates of the same counterparty. -/
def partyCandidates (config : GroupMatchConfig) (rejected : List (Id × Id)) (consumed : List Id)
    (single : NormalisedTransaction) (pool : List NormalisedTransaction) :
    List NormalisedTransaction :=
  groupCandidates config rejected consumed single
    (fun t => (partyKey config single).isSome && partyKey config t == partyKey config single) pool

/-- `_solve`: first the candidates with a shared stem, then those of the same counterparty. -/
def groupSolve (g : GroupStrategy) (maxMembers : Nat) (pool : List NormalisedTransaction)
    (rejected : List (Id × Id)) (consumed : List Id) (outcome : GroupMatchOutcome)
    (single : NormalisedTransaction) : Prog (Option GroupSolution × GroupMatchOutcome) := do
  let (solution, outcome) ← groupLink g maxMembers single
    (stemCandidates g rejected consumed single pool) .referenceStem 950 outcome
  if solution.isSome then
    return (solution, outcome)
  else
    groupLink g maxMembers single (partyCandidates g.config rejected consumed single pool)
      .counterparty 900 outcome

/-! ## Recording -/

def groupRuleId (kind : GroupKind) (fx : Bool) : String :=
  match kind, fx with
  | .netted, true => "NETTED_CROSS_CURRENCY"
  | .split, _ => "SPLIT_TRANSACTION"
  | .netted, false => "NETTED_SETTLEMENT"

/-- The row of one member pairing. -/
def groupColumns (run : Id) (kind : GroupKind) (single : NormalisedTransaction)
    (solution : GroupSolution) (group : Id) (member : NormalisedTransaction) : MatchColumns :=
  let (internal, external) := match kind with
    | .split => (single, member)
    | .netted => (member, single)
  { runId := .run run
    matchType := match kind with
      | .split => .split
      | .netted => .netted
    status := .autoMatched
    confidence := solution.confidence
    internalTransactionId := internal.id
    externalTransactionId := external.id
    candidateCount := solution.members.length
    ruleId := some (groupRuleId kind solution.fx.isSome)
    matchGroupId := some group
    groupFields := some { singleTransactionId := single.id
                          memberTransactionIds := ids solution.members }
    matchedOnDate := external.txnDate }

def groupEvent (kind : GroupKind) (single : NormalisedTransaction) (solution : GroupSolution)
    (group : Id) (now : Instant) : AuditEvent where
  chainId := matchingChain
  actorType := "SYSTEM"
  actorId := "group-matcher"
  actionType := "MATCH"
  affectedRecords := .dict
    [(.str "match_group_id", .str (toString group)),
      (.str "single_transaction_id", .str (toString single.id)),
      (.str "member_transaction_ids",
        .list (solution.members.map fun m => .str (toString m.id)))]
  rationale := match kind with
    | .split => "SPLIT"
    | .netted => "NETTED"
  occurredAt := { utc := now }
  afterState := .dict
    [(.str "match_type", .str (match kind with
      | .split => "SPLIT"
      | .netted => "NETTED")),
      (.str "status", .str "AUTO_MATCHED"),
      (.str "rule_id", .str (groupRuleId kind solution.fx.isSome))]

/-- The rows of the members. The claim of the single side is finalised with the first one. -/
def recordMembers (columns : NormalisedTransaction → MatchColumns) (singleClaim : MatchClaim) :
    Bool → List (NormalisedTransaction × MatchClaim) → Prog Unit
  | _, [] => return ()
  | first, (member, claim) :: rest => do
    let id ← newId
    put (.insertResult { columns member with id := id })
    finalise claim id
    if first then
      finalise singleClaim id
    recordMembers columns singleClaim false rest

/-- The claims of a group: the single side first, then the members. -/
def groupSides (kind : GroupKind) (single : NormalisedTransaction)
    (members : List NormalisedTransaction) : List ClaimSide :=
  let (singleRole, memberRole) : ClaimRole × ClaimRole := match kind with
    | .split => (.internal, .external)
    | .netted => (.external, .internal)
  { transaction := single.id, role := singleRole } ::
    members.map fun m => { transaction := m.id, role := memberRole }

/-- `_record`. The statuses are flushed with the audit entry, after its chain is locked. -/
def groupRecord (g : GroupStrategy) (kind : GroupKind) (single : NormalisedTransaction)
    (solution : GroupSolution) : Prog (Option Id) := do
  match ← claimGroup (groupSides kind single solution.members) with
  | some (singleClaim :: memberClaims) =>
    let group ← newId
    recordMembers (groupColumns g.run kind single solution group) singleClaim true
      (solution.members.zip memberClaims)
    auditIf g.audit (groupEvent kind single solution group)
    markAll (single.id :: ids solution.members)
    return some group
  | _ => return none

/-! ## The passes -/

structure GroupState where
  consumed : List Id := []
  outcome : GroupMatchOutcome := {}

/-- One single side looks for its members. -/
def groupTurn (g : GroupStrategy) (kind : GroupKind) (pool : List NormalisedTransaction)
    (rejected : List (Id × Id)) (st : GroupState) (single : NormalisedTransaction) :
    Prog GroupState := do
  let maxMembers := match kind with
    | .split => g.config.maxSplitMembers
    | .netted => g.config.maxNettedMembers
  if st.consumed.contains single.id then
    return st
  else
    let (solution, outcome) ← groupSolve g maxMembers pool rejected st.consumed st.outcome single
    match solution with
    | none => return { st with outcome := outcome }
    | some solution =>
      match ← groupRecord g kind single solution with
      | none =>
        let conflicts := outcome.skippedClaimConflictCount + 1
        return { st with outcome := { outcome with skippedClaimConflictCount := conflicts } }
      | some group =>
        let outcome := { outcome with matchGroupIds := outcome.matchGroupIds ++ [group] }
        let outcome := match kind with
          | .split => { outcome with splitGroups := outcome.splitGroups + 1 }
          | .netted => { outcome with nettedGroups := outcome.nettedGroups + 1 }
        return { consumed := single.id :: ids solution.members ++ st.consumed, outcome := outcome }

/-- `GroupMatchingStrategy.run`. -/
def groupRun (g : GroupStrategy) (internals externals : List NormalisedTransaction) :
    Prog GroupMatchOutcome :=
  levelOn internals externals fun rejected => do
    let st ← internals.foldlM (groupTurn g .split externals rejected) {}
    let st ← externals.foldlM (groupTurn g .netted internals rejected) st
    return st.outcome

/-! ## What a solution is -/

/-- A candidate is linked, free, eligible and was not rejected. -/
theorem mem_groupCandidates {config : GroupMatchConfig} {rejected : List (Id × Id)}
    {consumed : List Id} {single : NormalisedTransaction} {linked : NormalisedTransaction → Bool}
    {pool : List NormalisedTransaction} {t : NormalisedTransaction}
    (h : t ∈ groupCandidates config rejected consumed single linked pool) :
    t ∈ pool ∧ isRejectedPairing rejected single t = false := by
  obtain ⟨hmem, hcond⟩ := List.mem_filter.mp (List.mem_insertionSort _ |>.mp h)
  simp only [Bool.and_eq_true, Bool.not_eq_true'] at hcond
  exact ⟨hmem, hcond.1.1.2⟩

/-- The solution has members, and they are candidates of the pool. -/
def GroupSolution.Sound (pool : List NormalisedTransaction) (rejected : List (Id × Id))
    (single : NormalisedTransaction) (solution : GroupSolution) : Prop :=
  solution.members ≠ [] ∧
    ∀ m ∈ solution.members, m ∈ pool ∧ isRejectedPairing rejected single m = false

theorem legsInr_work {W : RowWrite → Prop} : ∀ ts, (legsInr ts).Work W
  | [] => work_pure _
  | t :: ts => by
    refine Work.bind (work_legInr t) fun inr => ?_
    cases inr with
    | none => exact work_pure _
    | some inr =>
      refine Work.bind (legsInr_work ts) fun rest => ?_
      cases rest <;> exact work_pure _

theorem legsInr_length : ∀ ts, (legsInr ts).Returns fun out =>
    ∀ legs, out = some legs → legs.length = ts.length
  | [] => fun legs h => Option.some.inj h ▸ rfl
  | t :: ts => by
    refine (returns_true _).bind fun inr _ => ?_
    cases inr with
    | none => exact nofun
    | some inr =>
      refine (legsInr_length ts).bind fun rest hrest => ?_
      cases rest with
      | none => exact nofun
      | some rest =>
        rintro _ ⟨rfl⟩
        exact congrArg (· + 1) (hrest rest rfl)

section

variable {g : GroupStrategy} {maxMembers : Nat} {single : NormalisedTransaction}
  {candidates pool : List NormalisedTransaction} {rejected : List (Id × Id)}

theorem groupLegs_work {W : RowWrite → Prop} : (groupLegs g single candidates).Work W := by
  unfold groupLegs
  split
  · exact work_pure _
  · split
    · exact work_pure _
    · refine Work.bind (legsInr_work _) fun legs => ?_
      split
      · exact Work.bind (work_ofExcept _) fun _ => work_pure _
      · exact work_pure _

theorem groupLegs_length : (groupLegs g single candidates).Returns fun out =>
    ∀ legs, out = some legs → legs.amounts.length = candidates.length := by
  unfold groupLegs
  split
  · rintro _ ⟨rfl⟩
    exact List.length_map _
  · split
    · exact nofun
    · refine (legsInr_length _).bind fun legs hlegs => ?_
      split
      · refine (returns_true _).bind fun _ _ => ?_
        rintro _ ⟨rfl⟩
        exact Nat.succ.inj (hlegs _ rfl)
      · exact nofun

/-- A unique choice names at least two candidates. -/
theorem chooseMembers_unique {config : GroupMatchConfig} {legs : GroupLegs} {n : Nat}
    {found : SubsetSearch} (hlen : legs.amounts.length = n)
    (h : chooseMembers config maxMembers legs n = .ok found) (hu : found.outcome = .unique) :
    2 ≤ found.indices.length ∧ ∀ i ∈ found.indices, i < n := by
  unfold chooseMembers at h
  split at h
  · rename_i hwhole
    cases h
    exact ⟨List.length_range.symm ▸ hwhole.1, fun i hi => List.mem_range.mp hi⟩
  · split at h
    · cases h
      cases hu
    · obtain ⟨-, hbelow, hsize, -⟩ := find_witness h hu
      exact ⟨hsize, hlen ▸ hbelow⟩

/-- The members are the candidates that were chosen. -/
theorem groupSolution_members {link : GroupLink} {confidence : Nat} {legs : GroupLegs}
    {chosen : List Nat} {solution : GroupSolution}
    (h : groupSolution single candidates link confidence legs chosen = .ok solution) :
    solution.members = chosen.filterMap (candidates[·]?) := by
  unfold groupSolution at h
  dsimp only at h
  obtain ⟨fx, -, h⟩ := except_bind_ok h
  cases h
  rfl

theorem groupFit_work {W : RowWrite → Prop} {link : GroupLink} {confidence : Nat}
    {outcome : GroupMatchOutcome} :
    (groupFit g maxMembers single candidates link confidence outcome).Work W := by
  refine Work.bind groupLegs_work fun legs => ?_
  cases legs with
  | none => exact work_pure _
  | some legs =>
    dsimp only
    split
    · exact work_fail _
    · split
      · exact work_pure _
      · exact work_pure _
      · exact work_pure _
      · exact Work.bind (work_ofExcept _) fun _ => work_pure _

theorem groupFit_sound {link : GroupLink} {confidence : Nat} {outcome : GroupMatchOutcome}
    (hcandidates : ∀ m ∈ candidates, m ∈ pool ∧ isRejectedPairing rejected single m = false) :
    (groupFit g maxMembers single candidates link confidence outcome).Returns fun out =>
      ∀ solution, out.1 = some solution → solution.Sound pool rejected single := by
  refine groupLegs_length.bind fun legs hlegs => ?_
  cases legs with
  | none => exact fun _ hsome => absurd hsome (Option.some_ne_none _).symm
  | some legs =>
    dsimp only
    split
    · trivial
    · rename_i found hfound
      split
      · exact fun _ hsome => absurd hsome (Option.some_ne_none _).symm
      · exact fun _ hsome => absurd hsome (Option.some_ne_none _).symm
      · exact fun _ hsome => absurd hsome (Option.some_ne_none _).symm
      · rename_i hu
        refine returns_ofExcept.mpr (fun solution hsolution => ?_) |>.bind fun solution h => h
        rintro _ ⟨rfl⟩
        obtain ⟨htwo, hbelow⟩ := chooseMembers_unique (hlegs legs rfl) hfound hu
        rw [GroupSolution.Sound, groupSolution_members hsolution]
        constructor
        · -- The first index names a candidate.
          intro hnil
          obtain ⟨i, rest, hi⟩ := List.exists_cons_of_length_pos (Nat.lt_of_lt_of_le Nat.two_pos htwo)
          have hlt := hbelow i (hi ▸ List.mem_cons_self)
          have hmem := List.filterMap_eq_nil_iff.mp hnil i (hi ▸ List.mem_cons_self)
          rw [List.getElem?_eq_getElem hlt] at hmem
          cases hmem
        · intro m hm
          obtain ⟨i, -, hget⟩ := List.mem_filterMap.mp hm
          exact hcandidates m (List.mem_of_getElem? hget)

theorem groupLink_work {W : RowWrite → Prop} {link : GroupLink} {confidence : Nat}
    {outcome : GroupMatchOutcome} :
    (groupLink g maxMembers single candidates link confidence outcome).Work W := by
  unfold groupLink
  split
  · exact work_pure _
  · exact groupFit_work

theorem groupLink_sound {link : GroupLink} {confidence : Nat} {outcome : GroupMatchOutcome}
    (hcandidates : ∀ m ∈ candidates, m ∈ pool ∧ isRejectedPairing rejected single m = false) :
    (groupLink g maxMembers single candidates link confidence outcome).Returns fun out =>
      ∀ solution, out.1 = some solution → solution.Sound pool rejected single := by
  unfold groupLink
  split
  · exact fun _ hsome => absurd hsome (Option.some_ne_none _).symm
  · exact groupFit_sound hcandidates

theorem groupSolve_work {W : RowWrite → Prop} {consumed : List Id} {outcome : GroupMatchOutcome} :
    (groupSolve g maxMembers pool rejected consumed outcome single).Work W := by
  refine Work.bind groupLink_work fun out => ?_
  dsimp only
  split
  · exact work_pure _
  · exact groupLink_work

theorem groupSolve_sound {consumed : List Id} {outcome : GroupMatchOutcome} :
    (groupSolve g maxMembers pool rejected consumed outcome single).Returns fun out =>
      ∀ solution, out.1 = some solution → solution.Sound pool rejected single := by
  refine (groupLink_sound fun m hm => mem_groupCandidates hm).bind fun out hout => ?_
  dsimp only
  split
  · exact hout
  · exact groupLink_sound fun m hm => mem_groupCandidates hm

end

/-! ## The rows of a group -/

/-- The results of the members and their claims, with result identifiers from `n` on. -/
def groupRows (columns : NormalisedTransaction → MatchColumns) (n : Nat) :
    List (NormalisedTransaction × MatchClaim) → List (MatchResult × MatchClaim)
  | [] => []
  | (member, claim) :: rest =>
    ({ columns member with id := n }, { claim with matchResultId := some n }) ::
      groupRows columns (n + 1) rest

section

variable {columns : NormalisedTransaction → MatchColumns}

theorem groupRows_results : ∀ (n : Nat) (rest : List (NormalisedTransaction × MatchClaim)),
    (groupRows columns n rest).map (·.1) = resultRows n (rest.map fun q => columns q.1)
  | _, [] => rfl
  | n, _ :: rest => congrArg (_ :: ·) (groupRows_results (n + 1) rest)

theorem groupRows_claim_column {β : Type} {f : MatchClaim → β}
    (hf : ∀ (c : MatchClaim) (r : Option Id), f { c with matchResultId := r } = f c) :
    ∀ (n : Nat) (rest : List (NormalisedTransaction × MatchClaim)),
      ((groupRows columns n rest).map (·.2)).map f = (rest.map (·.2)).map f
  | _, [] => rfl
  | n, (_, c) :: rest => by
    simp only [groupRows, List.map_cons, hf, groupRows_claim_column hf (n + 1) rest]

/-- The rows of a group, one for each member. -/
theorem mem_groupRows {p : MatchResult × MatchClaim} :
    ∀ {n : Nat} {rest : List (NormalisedTransaction × MatchClaim)},
      p ∈ groupRows columns n rest → ∃ q ∈ rest, p.1.toMatchColumns = columns q.1 ∧
        p.2 = { q.2 with matchResultId := some p.1.id }
  | n, (m, c) :: rest, h => by
    rcases List.mem_cons.mp h with rfl | h
    · exact ⟨(m, c), List.mem_cons_self, rfl, rfl⟩
    · obtain ⟨q, hq, hcolumns, hclaim⟩ := mem_groupRows h
      exact ⟨q, List.mem_cons_of_mem _ hq, hcolumns, hclaim⟩

/-- Finalising one of the new claims. -/
theorem finalise_record {d : Db} {k : Nat} (hd : ∀ c ∈ d.claims, c.id < k)
    (rs : List MatchResult) {pre post : List MatchClaim} {c : MatchClaim}
    (hk : ∀ x ∈ pre ++ c :: post, k ≤ x.id) (hids : ((pre ++ c :: post).map (·.id)).Nodup) (r : Id) :
    (RowWrite.claimResult c.id r).apply (d.record rs (pre ++ c :: post)) =
      d.record rs (pre ++ { c with matchResultId := some r } :: post) := by
  rw [claimResult_record hd rs _ (hk c (List.mem_append_right _ List.mem_cons_self)),
    Store.updateIn_middle hids]

/-- After the first member the loop adds one row and finalises one claim for each of them. -/
theorem recordMembers_spec (c₀ : MatchClaim) {d : Db} {k : Nat} (hd : ∀ c ∈ d.claims, c.id < k) :
    ∀ (rest : List (NormalisedTransaction × MatchClaim)) (s : Session) (rs : List MatchResult)
      (pre : List MatchClaim), (∀ c ∈ pre ++ rest.map (·.2), k ≤ c.id) →
      ((pre ++ rest.map (·.2)).map (·.id)).Nodup → s.view = d.record rs (pre ++ rest.map (·.2)) →
      (recordMembers columns c₀ false rest).wp
        (fun _ s' => s'.supply = s.supply + rest.length ∧
          s'.view = d.record (rs ++ (groupRows columns s.supply rest).map (·.1))
            (pre ++ (groupRows columns s.supply rest).map (·.2)))
        (fun _ _ => False) s
  | [], s, rs, pre, _, _, hview => by
    refine ⟨rfl, ?_⟩
    rw [hview]
    simp only [groupRows, List.map_nil, List.append_nil]
  | (m, c) :: rest, s, rs, pre, hk, hids, hview => by
    simp only [recordMembers, finalise, bind_eq, wp_bind, wp_newId, wp_put, Bool.false_eq_true,
      if_false]
    rw [List.map_cons] at hk hids hview
    have hstep : ((s.take.write (RowWrite.insertResult { columns m with id := s.supply })).write
        (RowWrite.claimResult c.id s.supply)).view =
        d.record (rs ++ [{ columns m with id := s.supply }])
          ((pre ++ [{ c with matchResultId := some s.supply }]) ++ rest.map (·.2)) := by
      rw [Store.Session.view_write, Store.Session.view_write, Store.Session.view_take, hview]
      have hinsert : (RowWrite.insertResult { columns m with id := s.supply }).apply
          (d.record rs (pre ++ c :: rest.map (·.2))) =
          d.record (rs ++ [{ columns m with id := s.supply }]) (pre ++ c :: rest.map (·.2)) := by
        simp only [RowWrite.apply, Db.record, List.append_assoc]
      rw [List.append_assoc, List.singleton_append, ← finalise_record hd _ hk hids]
      exact congrArg _ hinsert
    refine (recordMembers_spec c₀ hd rest _ _ _ ?_ ?_ hstep).mono ?_ fun _ _ h => h
    · intro x hx
      rw [List.append_assoc, List.singleton_append] at hx
      rcases List.mem_append.mp hx with hx | hx
      · exact hk x (List.mem_append_left _ hx)
      · rcases List.mem_cons.mp hx with rfl | hx
        · exact hk c (List.mem_append_right _ List.mem_cons_self)
        · exact hk x (List.mem_append_right _ (List.mem_cons_of_mem c hx))
    · rw [List.append_assoc, List.singleton_append]
      simpa only [List.map_append, List.map_cons] using hids
    · rintro _ s' ⟨hsupply, hview'⟩
      simp only [Store.Session.supply_write, Store.Session.supply_take] at hsupply hview'
      refine ⟨by rw [hsupply, List.length_cons]; omega, ?_⟩
      rw [hview']
      simp only [groupRows, List.map_cons, List.append_assoc, List.singleton_append]

/-- All members: the claim of the single side carries the first row. -/
theorem recordMembers_first (c₀ : MatchClaim) {d : Db} {k : Nat} (hd : ∀ c ∈ d.claims, c.id < k)
    {rest : List (NormalisedTransaction × MatchClaim)} (hne : rest ≠ []) {s : Session}
    (hk : ∀ c ∈ c₀ :: rest.map (·.2), k ≤ c.id)
    (hids : ((c₀ :: rest.map (·.2)).map (·.id)).Nodup)
    (hview : s.view = d.record [] (c₀ :: rest.map (·.2))) :
    (recordMembers columns c₀ true rest).wp
      (fun _ s' => s'.supply = s.supply + rest.length ∧
        s'.view = d.record ((groupRows columns s.supply rest).map (·.1))
          ({ c₀ with matchResultId := some s.supply } ::
            (groupRows columns s.supply rest).map (·.2)))
      (fun _ _ => False) s := by
  obtain ⟨⟨m, c⟩, rest, rfl⟩ := List.exists_cons_of_ne_nil hne
  simp only [recordMembers, finalise, bind_eq, wp_bind, wp_newId, wp_put, if_true]
  rw [List.map_cons] at hk hids hview
  have hstep : (((s.take.write (RowWrite.insertResult { columns m with id := s.supply })).write
      (RowWrite.claimResult c.id s.supply)).write (RowWrite.claimResult c₀.id s.supply)).view =
      d.record [{ columns m with id := s.supply }]
        ([{ c₀ with matchResultId := some s.supply }, { c with matchResultId := some s.supply }] ++
          rest.map (·.2)) := by
    simp only [Store.Session.view_write, Store.Session.view_take]
    rw [hview]
    have hinsert : (RowWrite.insertResult { columns m with id := s.supply }).apply
        (d.record [] (c₀ :: c :: rest.map (·.2))) =
        d.record [{ columns m with id := s.supply }] ([c₀] ++ c :: rest.map (·.2)) := by
      simp only [RowWrite.apply, Db.record, List.append_nil]
      rfl
    have hk' : ∀ x ∈ [] ++ c₀ :: { c with matchResultId := some s.supply } :: rest.map (·.2),
        k ≤ x.id := by
      intro x hx
      rcases List.mem_cons.mp hx with rfl | hx
      · exact hk x List.mem_cons_self
      · rcases List.mem_cons.mp hx with rfl | hx
        · exact hk c (List.mem_cons_of_mem _ List.mem_cons_self)
        · exact hk x (List.mem_cons_of_mem _ (List.mem_cons_of_mem _ hx))
    have hmember := finalise_record hd [{ columns m with id := s.supply }] (show ∀ x ∈ [c₀] ++
      c :: rest.map (·.2), k ≤ x.id from hk) hids s.supply
    rw [hinsert, hmember]
    exact finalise_record hd _ hk' hids s.supply
  refine (recordMembers_spec c₀ hd rest _ _ _ ?_ ?_ hstep).mono ?_ fun _ _ h => h
  · intro x hx
    simp only [List.cons_append, List.nil_append, List.mem_cons] at hx
    rcases hx with rfl | rfl | hx
    · exact hk c₀ List.mem_cons_self
    · exact hk c (List.mem_cons_of_mem _ List.mem_cons_self)
    · exact hk x (List.mem_cons_of_mem _ (List.mem_cons_of_mem _ hx))
  · simpa only [List.cons_append, List.nil_append, List.map_cons] using hids
  · rintro _ s' ⟨hsupply, hview'⟩
    simp only [Store.Session.supply_write, Store.Session.supply_take] at hsupply hview'
    refine ⟨by rw [hsupply, List.length_cons]; omega, ?_⟩
    rw [hview']
    simp only [groupRows, List.map_cons, List.cons_append, List.nil_append]

end

/-! ## What the stage keeps -/

theorem groupColumns_stands (run : Id) (kind : GroupKind) (single : NormalisedTransaction)
    (solution : GroupSolution) (group : Id) (member : NormalisedTransaction) :
    (groupColumns run kind single solution group member).status ≠ .rejected := by
  cases kind <;> exact nofun

theorem groupColumns_auto (run : Id) (kind : GroupKind) (single : NormalisedTransaction)
    (solution : GroupSolution) (group : Id) (member : NormalisedTransaction) :
    (groupColumns run kind single solution group member).status = .autoMatched := by
  cases kind <;> rfl

/-- The two sides of a member pairing. -/
theorem groupColumns_side {run : Id} {kind : GroupKind} {single member : NormalisedTransaction}
    {solution : GroupSolution} {group : Id} {r : MatchResult}
    (hr : r.toMatchColumns = groupColumns run kind single solution group member) {t : Id} :
    r.Side t ↔ t = single.id ∨ t = member.id := by
  unfold MatchResult.Side
  rw [hr]
  cases kind with
  | split => exact Iff.rfl
  | netted => exact or_comm

/-- The member claims of a group, next to their members. -/
theorem mem_zip_claimRows {role : ClaimRole} {q : NormalisedTransaction × MatchClaim} :
    ∀ {n : Nat} {members : List NormalisedTransaction},
      q ∈ members.zip (claimRows n (members.map fun m => { transaction := m.id, role := role })) →
      q.1 ∈ members ∧ q.2.normalisedTransactionId = q.1.id
  | n, m :: members, h => by
    rcases List.mem_cons.mp h with rfl | h
    · exact ⟨List.mem_cons_self, rfl⟩
    · obtain ⟨hm, hid⟩ := mem_zip_claimRows h
      exact ⟨List.mem_cons_of_mem m hm, hid⟩

/-- There is one claim for every member. -/
theorem memberClaims_length (k : Nat) (members : List NormalisedTransaction) (role : ClaimRole) :
    (claimRows k (members.map fun m =>
      ({ transaction := m.id, role := role } : ClaimSide))).length = members.length := by
  rw [length_claimRows, List.length_map]

/-- The transactions that the claims of a group are for. -/
theorem groupRows_transactions {columns : NormalisedTransaction → MatchColumns} (f k : Nat)
    (members : List NormalisedTransaction) (role : ClaimRole) :
    ((groupRows columns f (members.zip (claimRows k (members.map fun m =>
      ({ transaction := m.id, role := role } : ClaimSide))))).map (·.2)).map
        (·.normalisedTransactionId) = ids members := by
  have hfst : (members.zip (claimRows k (members.map fun m =>
      ({ transaction := m.id, role := role } : ClaimSide)))).map (·.1) = members :=
    List.map_fst_zip (Nat.le_of_eq (memberClaims_length k members role).symm)
  rw [groupRows_claim_column (fun _ _ => rfl), List.map_map]
  conv_rhs => rw [← hfst, ids, List.map_map]
  exact List.map_congr_left fun q hq => (mem_zip_claimRows hq).2

/-- A group is a new match: the single side's claim carries the first row, every other claim its
own member's row, and all rows share the group. -/
theorem NewMatch.group {n k f : Nat} {d : Db} (run : Id) (kind : GroupKind)
    {single : NormalisedTransaction} {solution : GroupSolution} (group : Id)
    {singleRole memberRole : ClaimRole} (hne : solution.members ≠ [])
    (hk : ∀ c ∈ d.claims, c.id < k) (hr : ∀ r ∈ d.results, r.id < f)
    (hkn : k + 1 + solution.members.length ≤ n) (hfn : f + solution.members.length ≤ n)
    (hfree : d.Free ({ transaction := single.id, role := singleRole } ::
      solution.members.map fun m => { transaction := m.id, role := memberRole }))
    (hlive : d.Live single.id ∧ ∀ m ∈ solution.members, d.Live m.id)
    {rest : List (NormalisedTransaction × MatchClaim)}
    (hrest : rest = solution.members.zip (claimRows (k + 1)
      (solution.members.map fun m => { transaction := m.id, role := memberRole }))) :
    NewMatch n d .autoMatched
      ((groupRows (groupColumns run kind single solution group) f rest).map (·.1))
      ({ id := k, normalisedTransactionId := single.id, matchResultId := some f,
         role := singleRole, status := .active } ::
        (groupRows (groupColumns run kind single solution group) f rest).map (·.2)) := by
  have hclaimsLen := memberClaims_length (k + 1) solution.members memberRole
  have hsnd : rest.map (·.2) = claimRows (k + 1)
      (solution.members.map fun m => { transaction := m.id, role := memberRole }) := by
    rw [hrest]
    exact List.map_snd_zip (Nat.le_of_eq hclaimsLen)
  have hfst : rest.map (·.1) = solution.members := by
    rw [hrest]
    exact List.map_fst_zip (Nat.le_of_eq hclaimsLen.symm)
  have hlen : rest.length = solution.members.length := by
    rw [← hfst, List.length_map]
  -- What is known of the row and the claim of a member.
  have hrow : ∀ p ∈ groupRows (groupColumns run kind single solution group) f rest,
      ∃ m ∈ solution.members, p.1.toMatchColumns = groupColumns run kind single solution group m ∧
        p.2.normalisedTransactionId = m.id ∧ p.2.matchResultId = some p.1.id ∧
        p.2.status = .active ∧ k + 1 ≤ p.2.id ∧ p.2.id < k + 1 + solution.members.length := by
    intro p hp
    obtain ⟨q, hq, hcolumns, hclaim⟩ := mem_groupRows hp
    have hzip := mem_zip_claimRows (hrest ▸ hq)
    have hclaimRow := mem_claimRows (hsnd ▸ List.mem_map_of_mem hq)
    rw [List.length_map] at hclaimRow
    rw [hclaim]
    exact ⟨q.1, hzip.1, hcolumns, hzip.2, rfl, hclaimRow.2.2, hclaimRow.1, hclaimRow.2.1⟩
  -- The first row, which carries the single side's claim.
  obtain ⟨first, hfirst, hfirstId⟩ : ∃ p ∈ groupRows (groupColumns run kind single solution group)
      f rest, p.1.id = f := by
    have hne' : rest ≠ [] := fun hnil => hne (by rw [← hfst, hnil, List.map_nil])
    obtain ⟨q, rest', rfl⟩ := List.exists_cons_of_ne_nil hne'
    exact ⟨_, List.mem_cons_self, rfl⟩
  have hgroup : ∀ p ∈ groupRows (groupColumns run kind single solution group) f rest,
      p.1.matchGroupId = some group := by
    intro p hp
    obtain ⟨m, -, hcolumns, -⟩ := hrow p hp
    rw [hcolumns]
    rfl
  have hclaimIds : ((groupRows (groupColumns run kind single solution group) f rest).map
      (·.2)).map (·.id) = (claimRows (k + 1)
        (solution.members.map fun m => { transaction := m.id, role := memberRole })).map (·.id) := by
    rw [groupRows_claim_column (fun _ _ => rfl), hsnd]
  have hclaimTxns : ((groupRows (groupColumns run kind single solution group) f rest).map
      (·.2)).map (·.normalisedTransactionId) = ids solution.members := by
    rw [hrest]
    exact groupRows_transactions f (k + 1) solution.members memberRole
  have hresults : (groupRows (groupColumns run kind single solution group) f rest).map (·.1) =
      resultRows f (rest.map fun q => groupColumns run kind single solution group q.1) :=
    groupRows_results f rest
  constructor
  case resultIds =>
    rw [hresults]
    exact resultRows_nodup _ _
  case resultFresh =>
    intro r hmem
    rw [hresults] at hmem
    obtain ⟨-, hge, hlt⟩ := mem_resultRows hmem
    rw [List.length_map, hlen] at hlt
    exact ⟨Nat.lt_of_lt_of_le hlt hfn, fun old hold =>
      Nat.ne_of_lt (Nat.lt_of_lt_of_le (hr old hold) hge)⟩
  case claimIds =>
    rw [List.map_cons, hclaimIds, List.nodup_cons]
    refine ⟨fun hmem => ?_, claimRows_ids_nodup _ _⟩
    obtain ⟨c, hc, hid⟩ := List.mem_map.mp hmem
    exact Nat.ne_of_gt (mem_claimRows hc).1 hid
  case claimFresh =>
    intro c hc
    rcases List.mem_cons.mp hc with rfl | hc
    · exact ⟨Nat.lt_of_lt_of_le (Nat.lt_add_right _ (Nat.lt_succ_self k)) hkn,
        fun old hold => Nat.ne_of_lt (hk old hold)⟩
    · obtain ⟨p, hp, rfl⟩ := List.mem_map.mp hc
      obtain ⟨m, -, -, -, -, -, hge, hlt⟩ := hrow p hp
      exact ⟨Nat.lt_of_lt_of_le hlt hkn, fun old hold =>
        Nat.ne_of_lt (Nat.lt_of_lt_of_le (hk old hold) (Nat.le_of_succ_le hge))⟩
  case distinct =>
    have hnodup := hfree.1
    rw [List.map_cons, List.map_map] at hnodup
    rw [List.map_cons, hclaimTxns]
    exact hnodup
  case free =>
    intro c hc
    rcases List.mem_cons.mp hc with rfl | hc
    · exact hfree.2 _ List.mem_cons_self
    · obtain ⟨p, hp, rfl⟩ := List.mem_map.mp hc
      obtain ⟨m, hm, -, ht, -⟩ := hrow p hp
      exact ht ▸ hfree.2 _ (List.mem_cons_of_mem _ (List.mem_map_of_mem hm))
  case live =>
    intro c hc
    rcases List.mem_cons.mp hc with rfl | hc
    · exact hlive.1
    · obtain ⟨p, hp, rfl⟩ := List.mem_map.mp hc
      obtain ⟨m, hm, -, ht, -⟩ := hrow p hp
      exact ht ▸ hlive.2 m hm
  case active =>
    intro c hc
    rcases List.mem_cons.mp hc with rfl | hc
    · rfl
    · obtain ⟨p, hp, rfl⟩ := List.mem_map.mp hc
      obtain ⟨m, -, -, -, -, ha, -⟩ := hrow p hp
      exact ha
  case stands => exact nofun
  case status_eq =>
    intro r hmem
    obtain ⟨p, hp, rfl⟩ := List.mem_map.mp hmem
    obtain ⟨m, -, hcolumns, -⟩ := hrow p hp
    rw [hcolumns]
    rfl
  case owned =>
    intro c hc
    rcases List.mem_cons.mp hc with rfl | hc
    · obtain ⟨m, -, hcolumns, -⟩ := hrow first hfirst
      exact ⟨first.1, List.mem_map_of_mem hfirst, congrArg some hfirstId.symm,
        (groupColumns_side hcolumns).mpr (Or.inl rfl)⟩
    · obtain ⟨p, hp, rfl⟩ := List.mem_map.mp hc
      obtain ⟨m, -, hcolumns, ht, hid, -⟩ := hrow p hp
      exact ⟨p.1, List.mem_map_of_mem hp, hid, (groupColumns_side hcolumns).mpr (Or.inr ht)⟩
  case covered =>
    intro r hmem t ht
    obtain ⟨p, hp, rfl⟩ := List.mem_map.mp hmem
    obtain ⟨m, -, hcolumns, htxn, hid, -⟩ := hrow p hp
    rcases (groupColumns_side hcolumns).mp ht with rfl | rfl
    · refine ⟨_, List.mem_cons_self, rfl, first.1, List.mem_map_of_mem hfirst,
        congrArg some hfirstId.symm, Or.inr ⟨?_, ?_⟩⟩
      · rw [hgroup first hfirst]
        exact nofun
      · rw [hgroup first hfirst, hgroup p hp]
    · exact ⟨p.2, List.mem_cons_of_mem _ (List.mem_map_of_mem hp), htxn, p.1,
        List.mem_map_of_mem hp, hid, Or.inl rfl⟩
  case parked => exact nofun

section

variable {g : GroupStrategy} {kind : GroupKind} {single : NormalisedTransaction}
  {solution : GroupSolution} {pool : List Id}

/-- Recording a group writes what a level may. -/
theorem groupRecord_stage {ok : MatchColumns → Prop}
    (h : ∀ group, ∀ m ∈ solution.members, ok (groupColumns g.run kind single solution group m)) :
    (groupRecord g kind single solution).Work (LevelWrite ok) := by
  refine Work.bind (claimGroup_work (fun _ => trivial) _) fun claims => ?_
  split
  · rename_i singleClaim memberClaims
    refine Work.bind work_newId fun group => Work.bind ?_ fun _ =>
      Work.bind (auditIf_work _ fun _ _ h => h) fun _ =>
      Work.bind (markAll_work (fun _ => rfl) _) fun _ => work_pure _
    have hloop : ∀ (rest : List (NormalisedTransaction × MatchClaim)) (first : Bool),
        (∀ q ∈ rest, q.1 ∈ solution.members) →
        (recordMembers (groupColumns g.run kind single solution group) singleClaim first rest).Work
          (LevelWrite ok) := by
      intro rest
      induction rest with
      | nil => exact fun _ _ => work_pure _
      | cons q rest ih =>
        intro first hrest
        have hq := h group q.1 (hrest q List.mem_cons_self)
        have htail := fun first => ih first fun q' hq' => hrest q' (List.mem_cons_of_mem q hq')
        refine Work.bind work_newId fun id => Work.bind (work_put.mpr hq) fun _ =>
          Work.bind (work_put.mpr trivial) fun _ => ?_
        cases first with
        | false => exact htail false
        | true => exact Work.bind (work_put.mpr trivial) fun _ => htail false
    exact hloop _ _ fun q hq => (List.of_mem_zip hq).1
  · exact work_pure _

/-- Recording a group claims nothing when a side is not free; otherwise it adds the rows and the
claims of the group, under a new identifier, and goes on to the trail and the statuses. -/
theorem groupRecord_spec {Q : Option Id → Session → Prop} {E : ReconError → Session → Prop}
    {s : Session} (hne : solution.members ≠ []) (hbelow : ∀ c ∈ s.view.claims, c.id < s.supply)
    (hnone : ∀ s', s.supply ≤ s'.supply → s'.view = s.view → Q none s')
    (hsome : ∀ (s' : Session) (group : Nat) (singleRole memberRole : ClaimRole),
      let sides := solution.members.map fun m =>
        ({ transaction := m.id, role := memberRole } : ClaimSide)
      let rows := groupRows (groupColumns g.run kind single solution group) (group + 1)
        (solution.members.zip (claimRows (s.supply + 1) sides))
      s.view.Free ({ transaction := single.id, role := singleRole } :: sides) →
      group = s.supply + 1 + solution.members.length →
      s'.supply = group + 1 + solution.members.length →
      s'.view = s.view.record (rows.map (·.1))
        ({ id := s.supply, normalisedTransactionId := single.id, matchResultId := some (group + 1),
           role := singleRole, status := .active } :: rows.map (·.2)) →
      (do
        auditIf g.audit (groupEvent kind single solution group)
        markAll (single.id :: ids solution.members)
        return some group : Prog (Option Id)).wp Q E s') :
    (groupRecord g kind single solution).wp Q E s := by
  rw [groupRecord, bind_eq, wp_bind]
  refine (claimGroup_spec _ s).mono ?_ fun _ _ h => h.elim
  rintro (_ | claims) s₁ ⟨hsupply, hout⟩
  · exact wp_pure.mpr (hnone s₁ hsupply hout.2)
  obtain ⟨hfree, rfl, hview, hs₁⟩ := hout
  -- The roles depend on the kind; nothing else does.
  obtain ⟨singleRole, memberRole, hsides⟩ : ∃ singleRole memberRole,
      groupSides kind single solution.members = { transaction := single.id, role := singleRole } ::
        solution.members.map fun m => { transaction := m.id, role := memberRole } := by
    cases kind
    · exact ⟨_, _, rfl⟩
    · exact ⟨_, _, rfl⟩
  rw [hsides] at hfree hview hs₁ ⊢
  have hcount := memberClaims_length (s.supply + 1) solution.members memberRole
  rw [List.length_cons, List.length_map] at hs₁
  let c₀ : MatchClaim :=
    { id := s.supply, normalisedTransactionId := single.id, matchResultId := none,
      role := singleRole, status := .active }
  let claims := claimRows (s.supply + 1) (solution.members.map fun m =>
    ({ transaction := m.id, role := memberRole } : ClaimSide))
  let rest := solution.members.zip claims
  have hsnd : rest.map (·.2) = claims := List.map_snd_zip (Nat.le_of_eq hcount)
  have hrestLen : rest.length = solution.members.length := by
    rw [List.length_zip, hcount, Nat.min_self]
  have hrestNe : rest ≠ [] := by
    intro hnil
    rw [hnil] at hrestLen
    exact hne (List.eq_nil_of_length_eq_zero hrestLen.symm)
  have hrows : c₀ :: rest.map (·.2) = claimRows s.supply
      ({ transaction := single.id, role := singleRole } ::
        solution.members.map fun m => { transaction := m.id, role := memberRole }) := by
    rw [hsnd]
    rfl
  have hall : ∀ c ∈ c₀ :: rest.map (·.2), s.supply ≤ c.id := by
    rw [hrows]
    exact fun c hc => (mem_claimRows hc).1
  have hids : ((c₀ :: rest.map (·.2)).map (·.id)).Nodup := by
    rw [hrows]
    exact claimRows_ids_nodup _ _
  have hview₁ : s₁.take.view = s.view.record [] (c₀ :: rest.map (·.2)) := by
    rw [hrows]
    exact hview
  refine wp_bind.mpr (wp_newId.mpr (wp_bind.mpr ?_))
  refine (recordMembers_first c₀ hbelow hrestNe hall hids hview₁).mono ?_ fun _ _ h => h.elim
  rintro _ s₂ ⟨hs₂, hview₂⟩
  rw [Store.Session.supply_take, hrestLen] at hs₂
  rw [Store.Session.supply_take] at hview₂
  exact hsome s₂ s₁.supply singleRole memberRole hfree (by omega) hs₂ hview₂

/-- Recording a group of the pools keeps them workable. -/
theorem groupRecord_workable {s : Session} (hne : solution.members ≠ []) (hsingle : single.id ∈ pool)
    (hmembers : ∀ m ∈ solution.members, m.id ∈ pool) (h : Workable pool [] s.supply s.view) :
    (groupRecord g kind single solution).wp (fun _ s' => Workable pool [] s'.supply s'.view)
      (fun _ _ => True) s := by
  refine groupRecord_spec hne h.ledger.claimBelow (fun s' hsupply hview => ?_) ?_
  · rw [hview]
    exact h.mono hsupply
  intro s₂ group singleRole memberRole sides rows hfree hgroup hs₂ hview₂
  have hnew := NewMatch.group (n := s₂.supply) (k := s.supply) (f := group + 1) (d := s.view)
    g.run kind group hne h.ledger.claimBelow
    (fun r hr => Nat.lt_of_lt_of_le (h.ledger.resultBelow r hr) (by omega)) (by omega) (by omega)
    hfree ⟨h.live _ hsingle, fun m hm => h.live _ (hmembers m hm)⟩ rfl
  have hrec := (h.mono (show s.supply ≤ s₂.supply by omega)).record
    ((Db.setStatus_no_ids .matched s.view).symm ▸ hnew)
  rw [List.nil_append, ← hview₂, NewMatch.marks, if_neg nofun, List.map_cons,
    groupRows_transactions] at hrec
  refine wp_bind.mpr ((auditIf_workable hrec).mono ?_ fun _ _ _ => trivial)
  intro _ s₃ h₃
  have h₃' : Workable pool ((single.id :: ids solution.members) ++ []) s₃.supply s₃.view := by
    rw [List.append_nil]
    exact h₃
  exact wp_bind.mpr ((markAll_workable h₃').mono (fun _ _ h => h) fun _ _ _ => trivial)

end

/-- A pass looks for the members of a transaction of one source in the pool of the other. -/
def GroupKind.Faces (kind : GroupKind) (internals externals : List NormalisedTransaction)
    (single : NormalisedTransaction) (pool : List NormalisedTransaction) : Prop :=
  match kind with
  | .split => single ∈ internals ∧ single.source = .internal ∧ pool = externals
  | .netted => single ∈ externals ∧ single.source = .external ∧ pool = internals

section

variable {g : GroupStrategy} {kind : GroupKind} {internals externals pool : List NormalisedTransaction}
  {rejected : List (Id × Id)} {st : GroupState} {single : NormalisedTransaction}
  {solution : GroupSolution}

/-- Every member pairing of a solution is one that the stage may make. -/
theorem GroupSolution.Sound.allowed (h : solution.Sound pool rejected single)
    (hf : kind.Faces internals externals single pool) (group : Id)
    {m : NormalisedTransaction} (hm : m ∈ solution.members) :
    Allowed internals externals rejected
      (groupColumns g.run kind single solution group m).internalTransactionId
      (groupColumns g.run kind single solution group m).externalTransactionId := by
  obtain ⟨hpool, hrejected⟩ := h.2 m hm
  cases kind with
  | split =>
    obtain ⟨hs, hsource, rfl⟩ := hf
    rw [isRejectedPairing, if_pos hsource, List.contains_eq_mem, decide_eq_false_iff_not]
      at hrejected
    exact ⟨List.mem_map_of_mem hs, List.mem_map_of_mem hpool, hrejected⟩
  | netted =>
    obtain ⟨hs, hsource, rfl⟩ := hf
    rw [isRejectedPairing, if_neg (by rw [hsource]; exact nofun), List.contains_eq_mem,
      decide_eq_false_iff_not] at hrejected
    exact ⟨List.mem_map_of_mem hpool, List.mem_map_of_mem hs, hrejected⟩

theorem groupTurn_stage (hf : kind.Faces internals externals single pool) :
    (groupTurn g kind pool rejected st single).Work
      (LevelWrite (Proposed (·.status = .autoMatched) internals externals rejected)) := by
  unfold groupTurn
  dsimp only
  split
  · exact work_pure _
  · refine Work.bind_returns groupSolve_work groupSolve_sound fun out hsound => ?_
    obtain ⟨solution, outcome⟩ := out
    cases solution with
    | none => exact work_pure _
    | some solution =>
      refine Work.bind (groupRecord_stage fun group m hm =>
        ⟨groupColumns_auto _ _ _ _ _ _, groupColumns_stands _ _ _ _ _ _,
          (hsound solution rfl).allowed hf group hm⟩) fun group => ?_
      cases group <;> exact work_pure _

theorem groupTurn_workable {s : Session} (hf : kind.Faces internals externals single pool)
    (h : Workable (ids internals ++ ids externals) [] s.supply s.view) :
    (groupTurn g kind pool rejected st single).wp
      (fun _ s' => Workable (ids internals ++ ids externals) [] s'.supply s'.view)
      (fun _ _ => True) s := by
  unfold groupTurn
  dsimp only
  split
  · exact h
  · refine wp_bind.mpr (wp.mono (Returns.wp groupSolve_sound (groupSolve_work.wp_reads s)) ?_
      fun _ _ _ => trivial)
    rintro ⟨solution, outcome⟩ s' ⟨hsound, hview, hsupply⟩
    have h' : Workable (ids internals ++ ids externals) [] s'.supply s'.view := by
      rw [hview]
      exact h.mono hsupply
    cases solution with
    | none => exact h'
    | some solution =>
      obtain ⟨hne, hmembers⟩ := hsound solution rfl
      have hpool : single.id ∈ ids internals ++ ids externals ∧
          ∀ m ∈ solution.members, m.id ∈ ids internals ++ ids externals := by
        cases kind with
        | split =>
          obtain ⟨hs, -, rfl⟩ := hf
          exact ⟨List.mem_append_left _ (List.mem_map_of_mem hs), fun m hm =>
            List.mem_append_right _ (List.mem_map_of_mem (hmembers m hm).1)⟩
        | netted =>
          obtain ⟨hs, -, rfl⟩ := hf
          exact ⟨List.mem_append_right _ (List.mem_map_of_mem hs), fun m hm =>
            List.mem_append_left _ (List.mem_map_of_mem (hmembers m hm).1)⟩
      refine wp_bind.mpr ((groupRecord_workable hne hpool.1 hpool.2 h').mono ?_
        fun _ _ _ => trivial)
      rintro (_ | group) s'' h''
      · exact h''
      · exact h''

/-- A pass keeps to the rejections when its pools are of the two sources. -/
theorem groupRun_onPools (hi : ∀ t ∈ internals, t.source = .internal)
    (he : ∀ t ∈ externals, t.source = .external) :
    OnPools (·.status = .autoMatched) internals externals (groupRun g internals externals) :=
  Or.inr ⟨_, rfl, fun _ =>
    Work.bind (Work.foldlM _ _ fun _ t ht => groupTurn_stage ⟨ht, hi t ht, rfl⟩) fun _ =>
    Work.bind (Work.foldlM _ _ fun _ t ht => groupTurn_stage ⟨ht, he t ht, rfl⟩) fun _ =>
    work_pure _⟩

end

/-! ## The rows of one group -/

def GroupKind.matchType : GroupKind → MatchType
  | .split => .split
  | .netted => .netted

/-- The transaction of a row on the side that the whole group shares. -/
def GroupKind.singleOf : GroupKind → MatchColumns → Id
  | .split, m => m.internalTransactionId
  | .netted, m => m.externalTransactionId

/-- The transaction of a row on the side of the members. -/
def GroupKind.memberOf : GroupKind → MatchColumns → Id
  | .split, m => m.externalTransactionId
  | .netted, m => m.internalTransactionId

/-- The rows of one group: they share the single side and have different members. -/
structure GroupKind.Rows (kind : GroupKind) (single : Id) (rs : List MatchResult) : Prop where
  matchType : ∀ r ∈ rs, r.matchType = kind.matchType
  single : ∀ r ∈ rs, kind.singleOf r.toMatchColumns = single
  members : (rs.map fun r => kind.memberOf r.toMatchColumns).Nodup

/-- The rows under every group identifier are those of one group. -/
def OneSided (rs : List MatchResult) : Prop :=
  ∀ g, ∃ kind single, GroupKind.Rows kind single (rs.filter (·.matchGroupId = some g))

theorem GroupKind.Rows.nil (kind : GroupKind) (single : Id) : kind.Rows single [] :=
  ⟨fun _ h => absurd h List.not_mem_nil, fun _ h => absurd h List.not_mem_nil, List.nodup_nil⟩

theorem filter_group_eq_nil {rs : List MatchResult} {g : Id}
    (h : ∀ r ∈ rs, r.matchGroupId ≠ some g) : rs.filter (·.matchGroupId = some g) = [] :=
  List.filter_eq_nil_iff.mpr fun r hr => by simpa using h r hr

theorem OneSided.of_pairs {rs : List MatchResult} (h : ∀ r ∈ rs, r.matchGroupId = none) :
    OneSided rs := by
  intro g
  refine ⟨.split, 0, ?_⟩
  rw [filter_group_eq_nil fun r hr => by rw [h r hr]; exact nofun]
  exact GroupKind.Rows.nil _ _

/-- Rows that have no group in common do not disturb each other. -/
theorem OneSided.append {rs rs' : List MatchResult} (h : OneSided rs) (h' : OneSided rs')
    (hg : ∀ r ∈ rs, ∀ r' ∈ rs', ∀ g, r.matchGroupId = some g → r'.matchGroupId ≠ some g) :
    OneSided (rs ++ rs') := by
  intro g
  rw [List.filter_append]
  by_cases hmem : ∃ r ∈ rs, r.matchGroupId = some g
  · obtain ⟨r, hr, hrg⟩ := hmem
    rw [filter_group_eq_nil fun r' hr' => hg r hr r' hr' g hrg, List.append_nil]
    exact h g
  · rw [filter_group_eq_nil fun r hr hrg => hmem ⟨r, hr, hrg⟩, List.nil_append]
    exact h' g

/-- The rows that record a group are the rows of one group. -/
theorem groupRows_rows {run : Id} {kind : GroupKind} {single : NormalisedTransaction}
    {solution : GroupSolution} {group f k : Nat} {role : ClaimRole}
    (hnodup : (ids solution.members).Nodup) :
    let rs := (groupRows (groupColumns run kind single solution group) f (solution.members.zip
      (claimRows k (solution.members.map fun m => { transaction := m.id, role := role })))).map (·.1)
    kind.Rows single.id rs ∧ ∀ r ∈ rs, r.matchGroupId = some group := by
  intro rs
  have hrow : ∀ r ∈ rs, ∃ m, r.toMatchColumns = groupColumns run kind single solution group m := by
    intro r hr
    obtain ⟨p, hp, rfl⟩ := List.mem_map.mp hr
    obtain ⟨q, -, hcolumns, -⟩ := mem_groupRows hp
    exact ⟨q.1, hcolumns⟩
  have hmembers : rs.map (fun r => kind.memberOf r.toMatchColumns) = ids solution.members := by
    have hrs : rs = _ := groupRows_results f _
    rw [hrs, map_resultRows, List.map_map]
    have hfst : (solution.members.zip (claimRows k (solution.members.map fun m =>
        ({ transaction := m.id, role := role } : ClaimSide)))).map (·.1) = solution.members :=
      List.map_fst_zip (Nat.le_of_eq (memberClaims_length k solution.members role).symm)
    conv_rhs => rw [← hfst, ids, List.map_map]
    exact List.map_congr_left fun q _ => by cases kind <;> rfl
  refine ⟨⟨fun r hr => ?_, fun r hr => ?_, hmembers ▸ hnodup⟩, fun r hr => ?_⟩
  · obtain ⟨m, hcolumns⟩ := hrow r hr
    rw [hcolumns]
    cases kind <;> rfl
  · obtain ⟨m, hcolumns⟩ := hrow r hr
    rw [hcolumns]
    cases kind <;> rfl
  · obtain ⟨m, hcolumns⟩ := hrow r hr
    rw [hcolumns]
    rfl

/-- The groups of the rows have identifiers from `first` on that are below `n`, and share one side
each. -/
structure Grouped (first n : Nat) (rs : List MatchResult) : Prop where
  oneSided : OneSided rs
  range : ∀ r ∈ rs, ∀ g : Nat, r.matchGroupId = some g → first ≤ g ∧ g < n

theorem Grouped.of_pairs {first n : Nat} {rs : List MatchResult}
    (h : ∀ r ∈ rs, r.matchGroupId = none) : Grouped first n rs :=
  ⟨OneSided.of_pairs h, fun r hr g hg => by rw [h r hr] at hg; cases hg⟩

theorem Grouped.mono {first n n' : Nat} {rs : List MatchResult} (h : Grouped first n rs)
    (hn : n ≤ n') : Grouped first n' rs :=
  ⟨h.oneSided, fun r hr g hg => ⟨(h.range r hr g hg).1, Nat.lt_of_lt_of_le (h.range r hr g hg).2 hn⟩⟩

/-- Later groups have later identifiers. -/
theorem Grouped.append {first n n' : Nat} {rs rs' : List MatchResult} (h : Grouped first n rs)
    (h' : Grouped n n' rs') (hfirst : first ≤ n) (hn : n ≤ n') : Grouped first n' (rs ++ rs') where
  oneSided := h.oneSided.append h'.oneSided fun r hr r' hr' g hg hg' =>
    Nat.not_lt.mpr (h'.range r' hr' g hg').1 (h.range r hr g hg).2
  range r hr g hg := by
    rcases List.mem_append.mp hr with hr | hr
    · exact ⟨(h.range r hr g hg).1, Nat.lt_of_lt_of_le (h.range r hr g hg).2 hn⟩
    · exact ⟨Nat.le_trans hfirst (h'.range r hr g hg).1, (h'.range r hr g hg).2⟩

theorem Grouped.group {n n' : Nat} {rs : List MatchResult} {kind : GroupKind} {single : Id}
    {group : Nat} (hrows : kind.Rows single rs) (hgroup : ∀ r ∈ rs, r.matchGroupId = some group)
    (hge : n ≤ group) (hlt : group < n') : Grouped n n' rs where
  oneSided g := by
    refine ⟨kind, single, ?_⟩
    by_cases heq : group = g
    · rw [List.filter_eq_self.mpr fun r hr => by simp [hgroup r hr, heq]]
      exact hrows
    · rw [filter_group_eq_nil fun r hr hg => heq (Option.some.inj ((hgroup r hr).symm.trans hg))]
      exact GroupKind.Rows.nil _ _
  range r hr g hg := by
    obtain rfl : group = g := Option.some.inj ((hgroup r hr).symm.trans hg)
    exact ⟨hge, hlt⟩

/-- The results since `base`, which were written with identifiers from `first` on. -/
def GroupedSince (base : List MatchResult) (first : Nat) (s : Session) : Prop :=
  first ≤ s.supply ∧ ∃ new, s.view.results = base ++ new ∧ Grouped first s.supply new

theorem GroupedSince.start (s : Session) : GroupedSince s.view.results s.supply s :=
  ⟨Nat.le_refl _, [], (List.append_nil _).symm, Grouped.of_pairs fun _ h => absurd h List.not_mem_nil⟩

theorem GroupedSince.of_same {base : List MatchResult} {first : Nat} {s s' : Session}
    (h : GroupedSince base first s) (hsupply : s.supply ≤ s'.supply)
    (hresults : s'.view.results = s.view.results) : GroupedSince base first s' := by
  obtain ⟨hfirst, new, hnew, hgrouped⟩ := h
  exact ⟨Nat.le_trans hfirst hsupply, new, hresults.trans hnew, hgrouped.mono hsupply⟩

section

variable {g : GroupStrategy} {kind : GroupKind} {internals externals pool : List NormalisedTransaction}
  {rejected : List (Id × Id)} {st : GroupState} {single : NormalisedTransaction}
  {solution : GroupSolution} {base : List MatchResult} {first : Nat}

/-- A recorded group has an identifier that no other has. -/
theorem groupRecord_grouped {s : Session} (hne : solution.members ≠ [])
    (hbelow : ∀ c ∈ s.view.claims, c.id < s.supply) (h : GroupedSince base first s) :
    (groupRecord g kind single solution).wp (fun _ s' => GroupedSince base first s') (fun _ _ => True) s := by
  refine groupRecord_spec hne hbelow (fun s' hsupply hview => h.of_same hsupply (by rw [hview])) ?_
  intro s₂ group singleRole memberRole sides rows hfree hgroup hs₂ hview₂
  have hnodup : (ids solution.members).Nodup := by
    have hall := hfree.1
    rw [List.map_cons, List.map_map] at hall
    exact (List.nodup_cons.mp hall).2
  obtain ⟨hrows, hgroups⟩ := @groupRows_rows g.run kind single solution group (group + 1)
    (s.supply + 1) memberRole hnodup
  have hnow : GroupedSince base first s₂ := by
    obtain ⟨hfirst, new, hnew, hgrouped⟩ := h
    refine ⟨by omega, new ++ rows.map (·.1), ?_, hgrouped.append
      (Grouped.group hrows hgroups (by omega) (by omega)) hfirst (by omega)⟩
    rw [hview₂, ← List.append_assoc, ← hnew]
    rfl
  -- The trail and the statuses leave the results.
  have hrest : (do
      auditIf g.audit (groupEvent kind single solution group)
      markAll (single.id :: ids solution.members)
      return some group : Prog (Option Id)).Work (LevelWrite fun _ => False) :=
    Work.bind (auditIf_work _ fun _ _ h => h) fun _ =>
      Work.bind (markAll_work (fun _ => rfl) _) fun _ => work_pure _
  refine (hrest.wp_keeps (f := fun d : Db => d.results) (fun _ _ hw => hw.results) s₂).mono ?_
    fun _ _ _ => trivial
  exact fun _ s' hs' => hnow.of_same hs'.1 hs'.2

theorem groupTurn_grouped {s : Session} (hf : kind.Faces internals externals single pool)
    (h : Workable (ids internals ++ ids externals) [] s.supply s.view) (hg : GroupedSince base first s) :
    (groupTurn g kind pool rejected st single).wp
      (fun _ s' => Workable (ids internals ++ ids externals) [] s'.supply s'.view ∧ GroupedSince base first s')
      (fun _ _ => True) s := by
  have hgrouped : (groupTurn g kind pool rejected st single).wp (fun _ s' => GroupedSince base first s')
      (fun _ _ => True) s := by
    unfold groupTurn
    dsimp only
    split
    · exact hg
    · refine wp_bind.mpr (wp.mono (Returns.wp groupSolve_sound (groupSolve_work.wp_reads s)) ?_
        fun _ _ _ => trivial)
      rintro ⟨solution, outcome⟩ s' ⟨hsound, hview, hsupply⟩
      have hg' : GroupedSince base first s' := hg.of_same hsupply (by rw [hview])
      cases solution with
      | none => exact hg'
      | some solution =>
        refine wp_bind.mpr ((groupRecord_grouped (hsound solution rfl).1 ?_ hg').mono ?_
          fun _ _ _ => trivial)
        · rw [hview]
          exact fun c hc => Nat.lt_of_lt_of_le (h.ledger.claimBelow c hc) hsupply
        rintro (_ | group) s'' h''
        · exact h''
        · exact h''
  exact ((groupTurn_workable hf h).and hgrouped).mono (fun _ _ h => h) fun _ _ _ => trivial

/-- The groups of a pass share one side each. -/
theorem groupRun_grouped {s : Session} (hi : ∀ t ∈ internals, t.source = .internal)
    (he : ∀ t ∈ externals, t.source = .external)
    (h : Workable (ids internals ++ ids externals) [] s.supply s.view) (hg : GroupedSince base first s) :
    (groupRun g internals externals).wp (fun _ s' =>
        Workable (ids internals ++ ids externals) [] s'.supply s'.view ∧ GroupedSince base first s')
      (fun _ _ => True) s := by
  rw [groupRun, wp_levelOn]
  refine wp_bind.mpr ((wp_foldlM (I := fun _ s =>
    Workable (ids internals ++ ids externals) [] s.supply s.view ∧ GroupedSince base first s) internals ?_ _ s
      ⟨h, hg⟩).mono ?_ fun _ _ h => h)
  · exact fun t ht st s hs => groupTurn_grouped ⟨ht, hi t ht, rfl⟩ hs.1 hs.2
  · intro st s' h'
    refine wp_bind.mpr (wp_foldlM (I := fun _ s =>
      Workable (ids internals ++ ids externals) [] s.supply s.view ∧ GroupedSince base first s)
        externals ?_ _ s' h')
    exact fun t ht st s hs => groupTurn_grouped ⟨ht, he t ht, rfl⟩ hs.1 hs.2

end

end Recon
