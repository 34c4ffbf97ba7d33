import ReconEngine.Matching.Pools
import ReconEngine.Matching.Review
import Mathlib.Data.List.Dedup

/-!
# Manual matches

`ManualMatchService`: a person pairs two free transactions, or undoes a match that stands. Undoing
is about the whole match: from whichever row of a group it starts, every row of the group becomes
REJECTED, every claim of these rows is released, and their transactions return to the pool.

Neither commits; both write to the matching chain.

**The laws** (`unmatch_spec`, `createMatch_ledger`): an undone match is a decision about every row
of its group, and a created one keeps the tables sound. A request that is refused has written
nothing.

**What they do not establish.** Anything about requests that overlap: see `Matching.Sessions` for
what they lock and `Exceptions.Voiding` for a resolver beside them.
-/

set_option autoImplicit false

namespace Recon

open Store.Prog hiding pure bind

/-! ## Creating a match -/

/-- `_load`. -/
def loadTransaction (id : Id) (label : String) : Prog NormalisedTransaction := do
  lockRow (.transaction id)
  let d ← tables
  match d.transaction? id with
  | some row => return row
  | none => .fail (.transactionNotFound ("the " ++ label ++ " transaction was not found"))

/-- UNMATCHED, and not claimed. -/
def requireFree (t : NormalisedTransaction) : Prog Unit := do
  let d ← tables
  require (t.matchStatus = .unmatched && !d.isClaimed t.id)
    (.transactionUnavailable
      ("transaction " ++ idText t.id ++ " is already matched or held for review"))

def manualColumns (user : String) (internal external : NormalisedTransaction) : MatchColumns where
  runId := .manual user
  matchType := .manual
  status := .confirmed
  confidence := 1000
  internalTransactionId := internal.id
  externalTransactionId := external.id
  candidateCount := 1
  ruleId := some "MANUAL"
  matchedOnDate := external.txnDate
  reviewedBy := some user

def manualEvent (id : Id) (internal external : NormalisedTransaction) (user note : String)
    (now : Instant) : AuditEvent where
  chainId := matchingChain
  actorType := "USER"
  actorId := "api-key:" ++ user
  actionType := "MATCH"
  affectedRecords := .dict
    [(.str "match_result_id", .str (idText id)),
      (.str "internal_transaction_id", .str (idText internal.id)),
      (.str "external_transaction_id", .str (idText external.id))]
  rationale := note
  occurredAt := { utc := now }
  afterState := .dict [(.str "match_type", .str "MANUAL"), (.str "status", .str "CONFIRMED")]

/-- `ManualMatchService.create`. -/
def createMatch (logger : AuditLogger) (internalId externalId : Id) (user note : String)
    (now : Instant) : Prog MatchResult := do
  let internal ← loadTransaction internalId "internal"
  let external ← loadTransaction externalId "external"
  require (internal.source = .internal && external.source = .external)
    (.invalidPair "a match pairs one internal transaction with one external")
  require (internal.bankCode = external.bankCode)
    (.invalidPair "both transactions must belong to the same bank")
  requireFree internal
  requireFree external
  let m := manualColumns user internal external
  match ← recordPair m with
  | none => .fail (.transactionUnavailable "a transaction was claimed concurrently")
  | some id => do
    markMatched m
    let _ ← logger.append (manualEvent id internal external user note now)
    return { m with id := id }

/-! ## Undoing a match -/

def ResultStatus.text : ResultStatus → String
  | .autoMatched => "AUTO_MATCHED"
  | .pendingReview => "PENDING_REVIEW"
  | .confirmed => "CONFIRMED"
  | .rejected => "REJECTED"

def MatchType.text : MatchType → String
  | .exact => "EXACT"
  | .fuzzy => "FUZZY"
  | .rule => "RULE"
  | .split => "SPLIT"
  | .netted => "NETTED"
  | .crossCurrency => "CROSS_CURRENCY"
  | .manual => "MANUAL"

/-- The rows of a match: the row alone, or all rows of its group. -/
def Db.matchRows (d : Db) (first : MatchResult) : List MatchResult :=
  match first.matchGroupId with
  | none => [first]
  | some group => d.results.filter (·.matchGroupId = some group)

/-- Lock the rows of a match. -/
def lockResults : List MatchResult → Prog Unit
  | [] => return
  | r :: rs => do
    lockRow (.result r.id)
    lockResults rs

/-- The transactions of a match become UNMATCHED, each under its row lock. -/
def returnToPool : List NormalisedTransaction → Prog Unit
  | [] => return
  | t :: ts => do
    setMatchStatus t.id .unmatched
    returnToPool ts

/-- The rows of a match become REJECTED. -/
def rejectRows (user : String) : List MatchResult → Prog Unit
  | [] => return
  | r :: rs => do
    put (.resultStatus r.id .rejected user)
    rejectRows user rs

/-- The sides of the rows of a match. -/
def matchSides (rows : List MatchResult) : List Id :=
  (rows.flatMap fun r => [r.internalTransactionId, r.externalTransactionId]).dedup

def unmatchEvent (first : MatchResult) (rows : List MatchResult) (user reason : String)
    (now : Instant) : AuditEvent where
  chainId := matchingChain
  actorType := "USER"
  actorId := "api-key:" ++ user
  actionType := "UNMATCH"
  affectedRecords := .dict
    [(.str "match_result_ids", .list (rows.map fun r => .str (idText r.id))),
      (.str "transaction_ids", .list
        ((((matchSides rows).map idText).insertionSort (· ≤ ·)).map .str))]
  rationale := reason
  occurredAt := { utc := now }
  beforeState := .dict
    [(.str "status", .str first.status.text), (.str "match_type", .str first.matchType.text)]
  afterState := .dict
    [(.str "status", .str "REJECTED"), (.str "transactions", .str "UNMATCHED")]

/-- `ManualMatchService.unmatch`. -/
def unmatch (logger : AuditLogger) (id : Id) (user reason : String) (now : Instant) :
    Prog (List MatchResult) := do
  lockRow (.result id)
  let d ← tables
  match d.result? id with
  | none => .fail (.transactionNotFound "match not found")
  | some first => do
    let rows := d.matchRows first
    lockResults rows
    require (rows.all fun r => r.status = .autoMatched || r.status = .confirmed)
      (.matchNotUnmatchable first.status)
    let d ← tables
    releaseClaims (d.claims.filter fun c =>
      c.status = .active ∧ ∃ r ∈ rows, c.matchResultId = some r.id)
    let d ← tables
    returnToPool (d.transactions.filter (·.id ∈ matchSides rows))
    rejectRows user rows
    let _ ← logger.append (unmatchEvent first rows user reason now)
    return rows.map (·.judge .rejected user)

/-! ## What is written -/

section

variable {W : RowWrite → Prop}

theorem releaseClaims_work {W : RowWrite → Prop} (hclaim : ∀ c, W (.releaseClaim c)) :
    ∀ cs, (releaseClaims cs).Work W
  | [] => work_pure _
  | _ :: cs => Work.bind (Work.bind (work_lockRow _) fun _ => work_put.mpr (hclaim _)) fun _ =>
      releaseClaims_work hclaim cs

theorem lockResults_work : ∀ rs, (lockResults rs).Work W
  | [] => work_pure _
  | _ :: rs => Work.bind (work_lockRow _) fun _ => lockResults_work rs

theorem returnToPool_work (hW : ∀ t, W (.transactionStatus t .unmatched)) :
    ∀ ts, (returnToPool ts).Work W
  | [] => work_pure _
  | _ :: ts => Work.bind (setMatchStatus_work (hW _)) fun _ => returnToPool_work hW ts

theorem rejectRows_work (user : String) (hW : ∀ r, W (.resultStatus r .rejected user)) :
    ∀ rs, (rejectRows user rs).Work W
  | [] => work_pure _
  | _ :: rs => Work.bind (work_put.mpr (hW _)) fun _ => rejectRows_work user hW rs

end

/-! ## What undoing does -/

theorem lockResults_spec : ∀ (rs : List MatchResult) (s : Session),
    (lockResults rs).wp (fun _ s' => s' = s) (fun _ _ => False) s
  | [], _ => rfl
  | _ :: rs, s => by
    simp only [lockResults, bind_eq, wp_bind, wp_lockRow]
    exact lockResults_spec rs s

/-- The transactions of a match become UNMATCHED. -/
theorem returnToPool_spec : ∀ (ts : List NormalisedTransaction) (s : Session),
    (returnToPool ts).wp
      (fun _ s' => s'.view = s.view.setStatus .unmatched (ts.map (·.id)) ∧ s'.supply = s.supply)
      (fun _ _ => False) s
  | [], s => ⟨(Db.setStatus_no_ids _ _).symm, rfl⟩
  | t :: ts, s => by
    simp only [returnToPool, setMatchStatus, bind_eq, wp_bind, wp_lockRow, wp_put]
    refine (returnToPool_spec ts _).mono ?_ fun _ _ h => h
    rintro _ s' ⟨hview, hsupply⟩
    refine ⟨hview.trans ?_, hsupply⟩
    rw [Store.Session.view_write]
    exact Db.setStatus_setStatus .unmatched [t.id] (ts.map (·.id)) s.view

theorem Db.setResultStatus_setResultStatus (status : ResultStatus) (reviewer : String)
    (ids ids' : List Id) (d : Db) :
    (d.setResultStatus status reviewer ids).setResultStatus status reviewer ids' =
      d.setResultStatus status reviewer (ids ++ ids') := by
  have h := Store.updateIn_updateIn (fun r : MatchResult => r.id) ids ids'
    (·.judge status reviewer) d.results (fun _ => rfl) fun _ => rfl
  exact congrArg (fun rs => { d with results := rs }) h

theorem rejectRows_spec (user : String) : ∀ (rs : List MatchResult) (s : Session),
    (rejectRows user rs).wp
      (fun _ s' => s'.view = s.view.setResultStatus .rejected user (rs.map (·.id)) ∧
        s'.supply = s.supply)
      (fun _ _ => False) s
  | [], s => by
    refine ⟨?_, rfl⟩
    simp only [List.map_nil, Db.setResultStatus, Db.updateResult, Store.updateIn_no_ids]
  | r :: rs, s => by
    simp only [rejectRows, bind_eq, wp_bind, wp_put]
    refine (rejectRows_spec user rs _).mono ?_ fun _ _ h => h
    rintro _ s' ⟨hview, hsupply⟩
    refine ⟨hview.trans ?_, hsupply⟩
    rw [Store.Session.view_write]
    exact Db.setResultStatus_setResultStatus .rejected user [r.id] (rs.map (·.id)) s.view

/-- The entry of an undone match can be hashed. -/
theorem unmatchEvent_accepted (first : MatchResult) (rows : List MatchResult)
    (user reason : String) (now : Instant) :
    (unmatchEvent first rows user reason now).Accepted where
  actor := Or.inr rfl
  aware := rfl
  affected := by
    apply PyValue.accepted_dict
    intro entry hentry
    simp only [List.mem_cons, List.not_mem_nil, or_false] at hentry
    rcases hentry with rfl | rfl
    · refine ⟨⟨_, rfl⟩, PyValue.accepted_list fun v hv => ?_⟩
      obtain ⟨r, -, rfl⟩ := List.mem_map.mp hv
      exact PyValue.accepted_str _
    · refine ⟨⟨_, rfl⟩, PyValue.accepted_list fun v hv => ?_⟩
      obtain ⟨t, -, rfl⟩ := List.mem_map.mp hv
      exact PyValue.accepted_str _
  before := PyValue.accepted_dict (by simp)
  after := PyValue.accepted_dict (by simp)

/-- Undoing a match, as a decision about its rows. -/
def Db.undoing (d : Db) (first : MatchResult) (user : String) : Decision where
  status := .rejected
  reviewer := user
  ids := (d.matchRows first).map (·.id)
  cs := (d.claims.filter fun c =>
    c.status = .active ∧ ∃ r ∈ d.matchRows first, c.matchResultId = some r.id).map (·.id)
  ts := (d.transactions.filter (·.id ∈ matchSides (d.matchRows first))).map (·.id)

/-- Undoing a match that stands carries out that decision; anything else changes nothing. -/
theorem unmatch_spec (logger : AuditLogger) (id : Id) (user reason : String) (now : Instant)
    (s : Session) :
    (unmatch logger id user reason now).wp
      (fun out s' => ∃ first, s.view.result? id = some first ∧
        (∀ r ∈ s.view.matchRows first, r.Settled) ∧
        out = (s.view.matchRows first).map (·.judge .rejected user) ∧ s.supply ≤ s'.supply ∧
        ∃ row, s'.view =
          (RowWrite.insertAudit row).apply (s.view.decided (s.view.undoing first user)))
      (fun _ s' => s'.view = s.view ∧ s.supply ≤ s'.supply ∧
        ∀ first, s.view.result? id = some first → ∃ r ∈ s.view.matchRows first, ¬ r.Settled) s := by
  unfold unmatch
  simp only [bind_eq, wp_bind, wp_lockRow, wp_tables]
  split
  · rename_i hnone
    exact ⟨rfl, Nat.le_refl _, fun first hfirst => by cases hnone.symm.trans hfirst⟩
  · rename_i first hfirst
    rw [wp_bind]
    refine (lockResults_spec _ s).mono ?_ fun _ _ h => h.elim
    rintro _ s' rfl
    rw [wp_bind, wp_require]
    split
    · rename_i hall
      have hsettled : ∀ r ∈ s'.view.matchRows first, r.Settled := by
        intro r hr
        simpa [MatchResult.Settled] using List.all_eq_true.mp hall r hr
      rw [wp_bind, wp_tables, wp_bind]
      refine (releaseClaims_spec _ _).mono ?_ fun _ _ h => h.elim
      rintro _ s₁ ⟨hview₁, hsupply₁⟩
      rw [wp_bind, wp_tables, wp_bind]
      refine (returnToPool_spec _ _).mono ?_ fun _ _ h => h.elim
      rintro _ s₂ ⟨hview₂, hsupply₂⟩
      rw [wp_bind]
      refine (rejectRows_spec _ _ _).mono ?_ fun _ _ h => h.elim
      rintro _ s₃ ⟨hview₃, hsupply₃⟩
      rw [wp_bind]
      refine (logger.append_accepted (unmatchEvent_accepted _ _ _ _ _) _).mono ?_
        fun _ _ h => h.elim
      rintro row s₄ ⟨-, rfl⟩
      refine ⟨first, hfirst, hsettled, rfl, ?_, row, ?_⟩
      · have hle : s'.supply ≤ s₃.supply + 1 :=
          hsupply₃ ▸ hsupply₂ ▸ hsupply₁ ▸ Nat.le_succ s'.supply
        exact hle
      · rw [Store.Session.view_write, Store.Session.view_take, hview₃, hview₂, hview₁]
        rfl
    · rename_i hsome
      refine ⟨rfl, Nat.le_refl _, fun other hother => ?_⟩
      obtain rfl := Option.some.inj (hfirst.symm.trans hother)
      simpa [MatchResult.Settled] using hsome

/-! ## Groups stand and fall as a whole -/

/-- The rows of a group are of one status, AUTO_MATCHED or REJECTED; the identifiers of groups are
used ones. -/
structure GroupsAgree (n : Nat) (d : Db) : Prop where
  known : ∀ r ∈ d.results, ∀ g : Id, r.matchGroupId = some g → g < n
  stands : ∀ r ∈ d.results, r.matchGroupId ≠ none → r.status = .autoMatched ∨ r.status = .rejected
  agree : ∀ r ∈ d.results, ∀ r' ∈ d.results, r.matchGroupId ≠ none →
    r.matchGroupId = r'.matchGroupId → r.status = r'.status

instance (r r' : MatchResult) : Decidable (r.SameMatch r') :=
  inferInstanceAs (Decidable (_ ∨ _ ∧ _))

instance (r : MatchResult) (t : Id) : Decidable (r.Side t) := inferInstanceAs (Decidable (_ ∨ _))

section

variable {n : Nat} {d : Db} {r first : MatchResult} {user : String}

theorem GroupsAgree.mono {n' : Nat} (h : GroupsAgree n d) (hn : n ≤ n') : GroupsAgree n' d :=
  { h with known := fun r hr g hg => Nat.lt_of_lt_of_le (h.known r hr g hg) hn }

/-- The rows of a match: those of its group, or the one. -/
theorem Db.mem_matchRows (hfirst : first ∈ d.results) :
    r ∈ d.matchRows first ↔ r ∈ d.results ∧ r.SameMatch first := by
  unfold Db.matchRows MatchResult.SameMatch
  cases hg : first.matchGroupId with
  | none =>
    rw [List.mem_singleton]
    constructor
    · rintro rfl
      exact ⟨hfirst, Or.inl rfl⟩
    · rintro ⟨-, rfl | ⟨hne, heq⟩⟩
      · rfl
      · exact absurd heq hne
  | some g =>
    rw [List.mem_filter, decide_eq_true_eq]
    constructor
    · rintro ⟨hr, heq⟩
      exact ⟨hr, Or.inr ⟨heq ▸ Option.some_ne_none g, heq⟩⟩
    · rintro ⟨hr, rfl | ⟨-, heq⟩⟩
      · exact ⟨hr, hg⟩
      · exact ⟨hr, heq⟩

/-- The rows of a match that stands all stand. -/
theorem GroupsAgree.settled (h : GroupsAgree n d) (hfirst : first ∈ d.results)
    (hset : first.Settled) : ∀ r ∈ d.matchRows first, r.Settled := by
  intro r hr
  obtain ⟨hmem, rfl | ⟨hne, heq⟩⟩ := (Db.mem_matchRows hfirst).mp hr
  · exact hset
  · unfold MatchResult.Settled
    rw [h.agree r hmem first hfirst hne heq]
    exact hset

/-- A decision about whole groups keeps them agreed; no group is ever under review. -/
theorem GroupsAgree.decided {x : Decision} (h : GroupsAgree n d)
    (hwhole : ∀ r ∈ d.results, r.id ∈ x.ids → r.matchGroupId ≠ none → x.status = .rejected ∧
      ∀ r' ∈ d.results, r.matchGroupId = r'.matchGroupId → r'.id ∈ x.ids) :
    GroupsAgree n (d.decided x) := by
  have hrow : ∀ r ∈ (d.decided x).results, ∃ old ∈ d.results,
      r.matchGroupId = old.matchGroupId ∧
        r.status = if old.id ∈ x.ids then x.status else old.status := by
    intro r hr
    obtain ⟨old, hold, rfl⟩ := Decision.Fits.mem_results x hr
    refine ⟨old, hold, ?_⟩
    by_cases hin : old.id ∈ x.ids
    · simp [hin, MatchResult.judge]
    · simp [hin]
  constructor
  · intro r hr g hg
    obtain ⟨old, hold, hgroup, -⟩ := hrow r hr
    exact h.known old hold g (hgroup ▸ hg)
  · intro r hr hne
    obtain ⟨old, hold, hgroup, hstatus⟩ := hrow r hr
    rw [hgroup] at hne
    rw [hstatus]
    split
    · rename_i hin
      exact Or.inr (hwhole old hold hin hne).1
    · exact h.stands old hold hne
  · intro r hr r' hr' hne heq
    obtain ⟨old, hold, hgroup, hstatus⟩ := hrow r hr
    obtain ⟨old', hold', hgroup', hstatus'⟩ := hrow r' hr'
    rw [hgroup, hgroup'] at heq
    rw [hgroup] at hne
    rw [hstatus, hstatus']
    -- Either both rows are decided about, or neither is.
    by_cases hin : old.id ∈ x.ids
    · rw [if_pos hin, if_pos ((hwhole old hold hin hne).2 old' hold' heq)]
    · by_cases hin' : old'.id ∈ x.ids
      · exact absurd ((hwhole old' hold' hin' (heq ▸ hne)).2 old hold heq.symm) hin
      · rw [if_neg hin, if_neg hin']
        exact h.agree old hold old' hold' hne heq

/-! ## A match undone -/

/-- `d'` is `d` with the match of `r` undone by `user`: every row of the match is REJECTED, its
ACTIVE claims are released and its transactions are UNMATCHED and back in the pool. Nothing else
differs but the audit trail. -/
structure Undone (r : MatchResult) (user : String) (d d' : Db) : Prop where
  results : d'.results = d.results.map fun x =>
    if x.SameMatch r then x.judge .rejected user else x
  claims : d'.claims = d.claims.map fun c =>
    if c.status = .active ∧ ∃ x ∈ d.results, x.SameMatch r ∧ c.matchResultId = some x.id then
      { c with status := .released } else c
  transactions : d'.transactions = d.transactions.map fun t =>
    if ∃ x ∈ d.results, x.SameMatch r ∧ x.Side t.id then { t with matchStatus := .unmatched } else t
  inPool : ∀ x ∈ d.results, x.SameMatch r → ∀ t, x.Side t → ∃ row ∈ d'.transactions, row.id = t ∧
    ∀ range : DateRange, range.contains row.txnDate = true →
      row ∈ d'.findUnmatched row.bankCode row.source range
  others : { d' with transactions := d.transactions, results := d.results, claims := d.claims,
                     audit := d.audit } = d

/-- The sides of a match are those of its rows. -/
theorem mem_matchSides {rows : List MatchResult} {t : Id} :
    t ∈ matchSides rows ↔ ∃ r ∈ rows, r.Side t := by
  simp [matchSides, MatchResult.Side]

/-- Undoing a match that stands fits. -/
theorem Ledger.undoing_fits (h : Ledger n d) (hfirst : first ∈ d.results)
    (hall : ∀ r ∈ d.matchRows first, r.Settled) (user : String) :
    (d.undoing first user).Fits d := by
  have hids : ∀ {r}, r ∈ d.results → r.id ∈ (d.matchRows first).map (·.id) →
      r ∈ d.matchRows first := by
    intro r hr hid
    obtain ⟨r', hr', heq⟩ := List.mem_map.mp hid
    rwa [h.result_eq hr ((Db.mem_matchRows hfirst).mp hr').1 heq.symm]
  constructor
  case status => exact Or.inr rfl
  case pending => exact nofun
  case whole =>
    intro r hr _ hout r' hr' _ hsame hin
    refine hout (List.mem_map_of_mem ((Db.mem_matchRows hfirst).mpr ⟨hr, ?_⟩))
    obtain ⟨-, hother⟩ := (Db.mem_matchRows hfirst).mp (hids hr' hin)
    exact hsame.symm.trans hother
  case claims =>
    intro c hc ha
    refine (h.mem_claim_ids hc).trans ?_
    simp [Db.undoing, ha]
  case held =>
    intro t ht
    obtain ⟨row, hrow, rfl⟩ := List.mem_map.mp ht
    obtain ⟨hrow, hside⟩ := List.mem_filter.mp hrow
    obtain ⟨r, hr, hside⟩ := mem_matchSides.mp (of_decide_eq_true hside)
    obtain ⟨hmem, hsame⟩ := (Db.mem_matchRows hfirst).mp hr
    obtain ⟨r', hholds, -, hsame'⟩ := h.covered r hmem (hall r hr) row.id hside
    refine ⟨r', hholds, List.mem_map_of_mem ((Db.mem_matchRows hfirst).mpr ⟨hholds.1, ?_⟩)⟩
    exact hsame'.trans hsame
  case sides =>
    intro r hin _ t ht
    obtain ⟨hne, hside⟩ := h.side_of_holds ht
    obtain ⟨row, hrow, rfl⟩ := h.sides r ht.1 hne t hside
    refine List.mem_map_of_mem (List.mem_filter.mpr ⟨hrow, decide_eq_true ?_⟩)
    exact mem_matchSides.mpr ⟨r, hids ht.1 hin, hside⟩

/-- The decision undoes the match, from whichever of its rows it starts. -/
theorem Ledger.undone (h : Ledger n d) (hfirst : first ∈ d.results)
    (hall : ∀ r ∈ d.matchRows first, r.Settled) (user : String) (row : AuditLog) :
    Undone first user d
      ((RowWrite.insertAudit row).apply (d.decided (d.undoing first user))) := by
  have hmember : ∀ {x}, x ∈ d.matchRows first ↔ x ∈ d.results ∧ x.SameMatch first :=
    Db.mem_matchRows hfirst
  have hsides : ∀ t, t ∈ matchSides (d.matchRows first) ↔
      ∃ x ∈ d.results, x.SameMatch first ∧ x.Side t := by
    intro t
    simp only [mem_matchSides, hmember, and_assoc]
  have hts : ∀ t ∈ d.transactions, t.id ∈ (d.undoing first user).ts ↔
      ∃ x ∈ d.results, x.SameMatch first ∧ x.Side t.id := by
    intro t ht
    rw [← hsides]
    constructor
    · intro hmem
      obtain ⟨t', ht', hid⟩ := List.mem_map.mp hmem
      rw [← hid]
      exact of_decide_eq_true (List.mem_filter.mp ht').2
    · exact fun hside => List.mem_map_of_mem (List.mem_filter.mpr ⟨ht, decide_eq_true hside⟩)
  constructor
  case results =>
    apply List.map_congr_left
    intro x hx
    have hin : x.id ∈ (d.undoing first user).ids ↔ x.SameMatch first := by
      constructor
      · intro hid
        obtain ⟨x', hx', heq⟩ := List.mem_map.mp hid
        rw [h.result_eq hx (hmember.mp hx').1 heq.symm]
        exact (hmember.mp hx').2
      · exact fun hsame => List.mem_map_of_mem (hmember.mpr ⟨hx, hsame⟩)
    simp only [hin]
    rfl
  case claims =>
    apply List.map_congr_left
    intro c hc
    have hin : c.id ∈ (d.undoing first user).cs ↔ c.status = .active ∧
        ∃ x ∈ d.results, x.SameMatch first ∧ c.matchResultId = some x.id := by
      refine (h.mem_claim_ids hc).trans ?_
      simp only [decide_eq_true_eq, hmember, and_assoc]
    simp only [hin]
  case transactions =>
    apply List.map_congr_left
    intro t ht
    simp only [hts t ht]
    rfl
  case inPool =>
    intro x hx hsame t hside
    have hne := (hall x (hmember.mpr ⟨hx, hsame⟩)).ne_rejected
    obtain ⟨old, hold, rfl⟩ := h.sides x hx hne t hside
    have hin : old.id ∈ (d.undoing first user).ts := (hts old hold).mpr ⟨x, hx, hsame, hside⟩
    refine ⟨{ old with matchStatus := .unmatched }, ?_, rfl, fun range hrange => ?_⟩
    · exact Store.mem_updateIn.mpr ⟨old, hold, if_pos hin⟩
    · refine Db.mem_findUnmatched.mpr ⟨Store.mem_updateIn.mpr ⟨old, hold, if_pos hin⟩, ?_⟩
      refine Db.available_iff.mpr ⟨rfl, rfl, rfl, ?_, hrange⟩
      -- The one claim on the transaction is of a row of this match, so it was released.
      rw [Db.isClaimed_eq_false]
      intro c hc ha hct
      obtain ⟨hcold, -, hout⟩ := Db.mem_release.mp ⟨hc, ha⟩
      obtain ⟨y, ⟨hy, c', hc', ha', hct', hid⟩, -, hsame'⟩ :=
        h.covered x hx (hall x (hmember.mpr ⟨hx, hsame⟩)) old.id hside
      obtain rfl := h.exclusive c hcold ha c' hc' ha' (hct.trans hct'.symm)
      apply hout
      apply (h.mem_claim_ids hcold).mpr
      simp only [decide_eq_true_eq]
      exact ⟨ha, y, hmember.mpr ⟨hy, hsame'.trans hsame⟩, hid⟩
  case others => rfl

/-! ## A match created -/

/-- A transaction is found under its lock, or the request is refused. -/
theorem loadTransaction_spec (id : Id) (label : String) (s : Session) :
    (loadTransaction id label).wp (fun row s' => s' = s ∧ row ∈ s.view.transactions ∧ row.id = id)
      (fun _ _ => True) s := by
  unfold loadTransaction
  simp only [bind_eq, wp_bind, wp_lockRow, wp_tables]
  split
  · rename_i row hrow
    exact ⟨rfl, List.mem_of_find?_eq_some hrow, by simpa using List.find?_some hrow⟩
  · trivial

/-- What a request for a match writes is the pair, its claims and statuses, and an entry. -/
theorem createMatch_work (logger : AuditLogger) (internalId externalId : Id) (user note : String)
    (now : Instant) :
    (createMatch logger internalId externalId user note now).Work
      (LevelWrite fun m => m.matchGroupId = none ∧ m.status = .confirmed) := by
  have hload : ∀ id label, (loadTransaction id label).Work
      (LevelWrite fun m => m.matchGroupId = none ∧ m.status = .confirmed) := by
    intro id label
    refine Work.bind (work_lockRow _) fun _ => Work.bind work_tables fun d => ?_
    split
    · exact work_pure _
    · exact work_fail _
  have hfree : ∀ t, (requireFree t).Work
      (LevelWrite fun m => m.matchGroupId = none ∧ m.status = .confirmed) := fun t =>
    Work.bind work_tables fun d => work_require _ _
  refine Work.bind (hload _ _) fun internal => Work.bind (hload _ _) fun external =>
    Work.bind (work_require _ _) fun _ => Work.bind (work_require _ _) fun _ =>
    Work.bind (hfree _) fun _ => Work.bind (hfree _) fun _ =>
    Work.bind (recordPair_level ⟨rfl, rfl⟩) fun out => ?_
  cases out with
  | none => exact work_fail _
  | some id =>
    refine Work.bind markMatched_level fun _ => Work.bind ?_ fun _ => work_pure _
    refine (logger.append_chain_work _).weaken ?_
    rintro _ ⟨row, rfl, hrow⟩
    exact hrow

/-- Creating a match keeps the invariant. -/
theorem createMatch_ledger (logger : AuditLogger) (internalId externalId : Id) (user note : String)
    (now : Instant) {s : Session} (h : Ledger s.supply s.view) :
    (createMatch logger internalId externalId user note now).wp
      (fun _ s' => Ledger s'.supply s'.view) (fun _ _ => True) s := by
  unfold createMatch
  rw [bind_eq, wp_bind]
  refine (loadTransaction_spec _ _ s).mono ?_ fun _ _ _ => trivial
  rintro internal s' ⟨rfl, hinternal, -⟩
  rw [bind_eq, wp_bind]
  refine (loadTransaction_spec _ _ s').mono ?_ fun _ _ _ => trivial
  rintro external s₀ ⟨rfl, hexternal, -⟩
  simp only [requireFree, bind_eq, wp_bind, wp_require, wp_tables]
  split
  swap
  · trivial
  split
  swap
  · trivial
  split
  swap
  · trivial
  rename_i hfree
  split
  swap
  · trivial
  rename_i hfree'
  simp only [Bool.and_eq_true, decide_eq_true_eq] at hfree hfree'
  have hpool : Workable [internal.id, external.id] [] s₀.supply s₀.view := by
    refine ⟨(Db.setStatus_no_ids _ _).symm ▸ h, fun t ht => ?_⟩
    simp only [List.mem_cons, List.not_mem_nil, or_false] at ht
    rcases ht with rfl | rfl
    · exact ⟨internal, hinternal, rfl, by rw [hfree.1]; decide⟩
    · exact ⟨external, hexternal, rfl, by rw [hfree'.1]; decide⟩
  refine (recordPair_workable (m := manualColumns user internal external) hpool
    (by simp [manualColumns]) (by simp [manualColumns]) (by simp [manualColumns])).mono ?_ fun _ _ _ => trivial
  rintro (_ | id) s₁ hs₁
  · trivial
  · refine wp_bind.mpr ((markMatched_workable hs₁).mono ?_ fun _ _ _ => trivial)
    intro _ s₂ hs₂
    refine wp_bind.mpr ((append_workable hs₂).mono ?_ fun _ _ _ => trivial)
    exact fun _ s₃ hs₃ => hs₃.of_nil

end

end Recon
