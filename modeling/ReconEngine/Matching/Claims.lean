import ReconEngine.Matching.Ledger

/-!
# Claims

`ClaimsService`, the only code that writes claims. A unique index allows one ACTIVE claim for a
transaction, so an insert takes the lock of the index value and fails when the value is there.
All claims of one match are inserted under one savepoint: either every one of them is there
afterwards or none is, and a conflict costs the caller nothing but the proposal.

**The laws** (`insertClaims_spec`, `claimGroup_spec`): the inserts succeed exactly when every side
is free, and then the claims are there; claiming a group is all or nothing.

**What they do not establish.** What other sessions do meanwhile: these are laws of one session on
its own view. A second writer meets the lock of the index value (`Store.System`), and then either
the value or its absence.
-/

set_option autoImplicit false

namespace Recon

open Store.Prog hiding pure bind

/-- What a claim is inserted for: the transaction, its role, and the result if it is known. -/
structure ClaimSide where
  transaction : Id
  role : ClaimRole
  result : Option Id := none
deriving DecidableEq, Repr

/-- The claims of some sides, with identifiers from `n` on. -/
def claimRows (n : Nat) : List ClaimSide → List MatchClaim
  | [] => []
  | side :: sides =>
    { id := n, normalisedTransactionId := side.transaction, matchResultId := side.result,
      role := side.role, status := .active } :: claimRows (n + 1) sides

theorem length_claimRows : ∀ (n : Nat) (sides : List ClaimSide),
    (claimRows n sides).length = sides.length
  | _, [] => rfl
  | n, _ :: sides => congrArg (· + 1) (length_claimRows (n + 1) sides)

/-- The rows claim the sides they were made for. -/
theorem transactions_claimRows : ∀ (n : Nat) (sides : List ClaimSide),
    (claimRows n sides).map (·.normalisedTransactionId) = sides.map (·.transaction)
  | _, [] => rfl
  | n, side :: sides => congrArg (side.transaction :: ·) (transactions_claimRows (n + 1) sides)

theorem mem_claimRows {c : MatchClaim} : ∀ {n : Nat} {sides : List ClaimSide},
    c ∈ claimRows n sides → n ≤ c.id ∧ c.id < n + sides.length ∧ c.status = .active
  | n, side :: sides, h => by
    rcases List.mem_cons.mp h with rfl | h
    · exact ⟨Nat.le_refl n, Nat.lt_add_of_pos_right (Nat.succ_pos _), rfl⟩
    · obtain ⟨hge, hlt, ha⟩ := mem_claimRows h
      refine ⟨Nat.le_of_succ_le hge, ?_, ha⟩
      rw [List.length_cons, Nat.add_comm sides.length 1, ← Nat.add_assoc]
      exact hlt

theorem claimRows_ids_nodup : ∀ (n : Nat) (sides : List ClaimSide),
    ((claimRows n sides).map (·.id)).Nodup
  | _, [] => List.nodup_nil
  | n, side :: sides => by
    rw [claimRows, List.map_cons, List.nodup_cons]
    refine ⟨fun hmem => ?_, claimRows_ids_nodup (n + 1) sides⟩
    obtain ⟨c, hc, hid⟩ := List.mem_map.mp hmem
    exact Nat.ne_of_gt (mem_claimRows hc).1 hid

/-- One insert into `match_claims`; it fails when the transaction has an ACTIVE claim. -/
def insertClaim (side : ClaimSide) : Prog MatchClaim := do
  lockRow (.claimKey side.transaction)
  let d ← tables
  require (!d.isClaimed side.transaction) (.integrity "ux_match_claims_one_active_claim_per_txn")
  let id ← newId
  let claim : MatchClaim :=
    { id := id, normalisedTransactionId := side.transaction, matchResultId := side.result,
      role := side.role, status := .active }
  put (.insertClaim claim)
  return claim

def insertClaims : List ClaimSide → Prog (List MatchClaim)
  | [] => return []
  | side :: sides => do
    let claim ← insertClaim side
    let claims ← insertClaims sides
    return claim :: claims

/-- Claim every side under one savepoint. `none` is `ClaimConflictError`; the inserts raise no
other error. -/
def claimGroup (sides : List ClaimSide) : Prog (Option (List MatchClaim)) :=
  attempt (some <$> insertClaims sides) fun _ => return none

/-- Claim both sides of a prospective match. -/
def claimPair (internal external : Id) : Prog (Option (List MatchClaim)) :=
  claimGroup [{ transaction := internal, role := .internal },
    { transaction := external, role := .external }]

/-- Record the result that a claim belongs to. -/
def finalise (claim : MatchClaim) (result : Id) : Prog Unit := put (.claimResult claim.id result)

/-- Release a claim; the row is never deleted. -/
def releaseClaim (claim : MatchClaim) : Prog Unit := do
  lockRow (.claimKey claim.normalisedTransactionId)
  put (.releaseClaim claim.id)

/-- The update of one transaction's status takes its row lock. -/
def setMatchStatus (t : Id) (status : MatchStatus) : Prog Unit := do
  lockRow (.transaction t)
  put (.transactionStatus t status)

/-! ## What is written -/

section Work

variable {W : RowWrite → Prop}

theorem insertClaims_work (hW : ∀ c, W (.insertClaim c)) :
    ∀ sides, (insertClaims sides).Work W
  | [] => work_pure _
  | side :: sides => by
    refine Work.bind (Work.bind (work_lockRow _) fun _ => Work.bind work_tables fun d =>
      Work.bind (work_require _ _) fun _ => Work.bind work_newId fun id =>
      Work.bind (work_put.mpr (hW _)) fun _ => work_pure _) fun claim => ?_
    exact Work.bind (insertClaims_work hW sides) fun claims => work_pure _

theorem claimGroup_work (hW : ∀ c, W (.insertClaim c)) (sides : List ClaimSide) :
    (claimGroup sides).Work W :=
  Work.attempt (Work.bind (insertClaims_work hW sides) fun _ => work_pure _) fun _ => work_pure _

theorem setMatchStatus_work {t : Id} {status : MatchStatus} (hW : W (.transactionStatus t status)) :
    (setMatchStatus t status).Work W :=
  Work.bind (work_lockRow _) fun _ => work_put.mpr hW

end Work

/-! ## What is inserted -/

/-- No side is claimed yet, and no transaction is named twice. -/
def Db.Free (d : Db) (sides : List ClaimSide) : Prop :=
  (sides.map (·.transaction)).Nodup ∧ ∀ side ∈ sides, d.isClaimed side.transaction = false

/-- After an insertion its transaction is claimed, and the others as before. -/
theorem Db.isClaimed_insert (d : Db) (c : MatchClaim) (t : Id) (hc : c.status = .active) :
    (d.record [] [c]).isClaimed t = true ↔ c.normalisedTransactionId = t ∨ d.isClaimed t = true := by
  simp only [Db.isClaimed, Db.record, List.any_append, List.any_cons, List.any_nil, hc,
    beq_self_eq_true, Bool.and_true, Bool.or_false, Bool.or_eq_true, beq_iff_eq]
  exact or_comm

/-- Sides are free together when each is, and no two are of one transaction. -/
theorem Db.free_cons (d : Db) (side : ClaimSide) (sides : List ClaimSide) (c : MatchClaim)
    (hc : c.status = .active) (ht : c.normalisedTransactionId = side.transaction) :
    d.Free (side :: sides) ↔
      d.isClaimed side.transaction = false ∧ (d.record [] [c]).Free sides := by
  have hkey : ∀ t, (d.record [] [c]).isClaimed t = false ↔
      side.transaction ≠ t ∧ d.isClaimed t = false := by
    intro t
    rw [← Bool.not_eq_true, d.isClaimed_insert c t hc, ht, not_or, Bool.not_eq_true]
  simp only [Db.Free, List.map_cons, List.nodup_cons, List.mem_map, not_exists, not_and,
    List.forall_mem_cons, hkey]
  constructor
  · rintro ⟨⟨hne, hnodup⟩, hfree, hrest⟩
    exact ⟨hfree, hnodup, fun s hs => ⟨fun heq => hne s hs heq.symm, hrest s hs⟩⟩
  · rintro ⟨hfree, hnodup, hrest⟩
    exact ⟨⟨fun s hs heq => (hrest s hs).1 heq.symm, hnodup⟩, hfree, fun s hs => (hrest s hs).2⟩

/-- The inserts succeed exactly when every side is free; then the claims are there. -/
theorem insertClaims_spec : ∀ (sides : List ClaimSide) (s : Session),
    (insertClaims sides).wp
      (fun claims s' => s.view.Free sides ∧ claims = claimRows s.supply sides ∧
        s'.view = s.view.record [] claims ∧ s'.supply = s.supply + sides.length)
      (fun _ s' => ¬ s.view.Free sides ∧ s.supply ≤ s'.supply) s
  | [], s => ⟨⟨List.nodup_nil, fun _ h => absurd h List.not_mem_nil⟩, rfl,
      (Db.record_nil _).symm, rfl⟩
  | side :: sides, s => by
    let c : MatchClaim :=
      { id := s.supply, normalisedTransactionId := side.transaction, matchResultId := side.result,
        role := side.role, status := .active }
    have hfree := s.view.free_cons side sides c rfl rfl
    simp only [insertClaims, insertClaim, bind_eq, pure_eq, wp_bind, wp_lockRow, wp_tables,
      wp_require, wp_newId, wp_put, wp_pure]
    by_cases hclaimed : s.view.isClaimed side.transaction = true
    · rw [hclaimed]
      exact ⟨fun hf => by simp [(hfree.mp hf).1] at hclaimed, Nat.le_refl _⟩
    · rw [Bool.not_eq_true] at hclaimed
      rw [hclaimed]
      refine (insertClaims_spec sides (s.take.write (RowWrite.insertClaim c))).mono ?_ ?_
      · rintro claims s' ⟨hf, rfl, hview, hsupply⟩
        have hstep : (s.take.write (RowWrite.insertClaim c)).view = s.view.record [] [c] := by
          rw [Store.Session.view_write, Store.Session.view_take]
          simp only [RowWrite.apply, Db.record, List.append_nil]
        rw [hstep] at hf hview
        refine ⟨hfree.mpr ⟨hclaimed, hf⟩, rfl, hview.trans (Db.record_record ..), hsupply.trans ?_⟩
        simp only [Store.Session.supply_write, Store.Session.supply_take, List.length_cons]
        omega
      · rintro e s' ⟨hf, hsupply⟩
        refine ⟨fun hf' => hf ?_, Nat.le_trans (Nat.le_succ _) hsupply⟩
        have := (hfree.mp hf').2
        rwa [show (s.take.write (RowWrite.insertClaim c)).view = s.view.record [] [c] by
          rw [Store.Session.view_write, Store.Session.view_take]
          simp only [RowWrite.apply, Db.record, List.append_nil]]

/-- Claiming a group inserts every claim when all sides are free and nothing otherwise. -/
theorem claimGroup_spec (sides : List ClaimSide) (s : Session) :
    (claimGroup sides).wp
      (fun claims s' => s.supply ≤ s'.supply ∧ match claims with
        | none => ¬ s.view.Free sides ∧ s'.view = s.view
        | some claims => s.view.Free sides ∧ claims = claimRows s.supply sides ∧
          s'.view = s.view.record [] claims ∧ s'.supply = s.supply + sides.length)
      (fun _ _ => False) s := by
  have hwork : (some <$> insertClaims sides).Work fun _ => True :=
    Work.bind (insertClaims_work (fun _ => trivial) sides) fun _ => work_pure _
  refine hwork.wp_attempt ?_
  rw [map_eq, wp_bind]
  have hcommitted := (insertClaims_work (W := fun _ => True) (fun _ => trivial) sides).wp_frame s
  refine ((insertClaims_spec sides s).and hcommitted).mono ?_ ?_
  · rintro claims s' ⟨⟨hf, rfl, hview, hsupply⟩, -⟩
    exact ⟨hsupply ▸ Nat.le_add_right _ _, hf, rfl, hview, hsupply⟩
  · rintro e s' ⟨⟨hf, hsupply⟩, hc, -⟩
    refine ⟨hsupply, hf, ?_⟩
    simp only [Store.Session.view, hc]

end Recon
