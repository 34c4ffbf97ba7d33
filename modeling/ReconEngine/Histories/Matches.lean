import ReconEngine.Histories.Soundness
import ReconEngine.Matching.Constraints

/-!
# Matches over histories

What holds of matches after any history of operations: the tables agree, and a match that stands
can be undone as a whole, from whichever of its rows the request starts.

**The laws** (`history_consistent`, `unmatch_undoes`): the first is the run induction over
`Operation.sound`, read off the claims, results and statuses; the second is one request in a sound
state, with its frame: rows of other groups stay as they were.

**What they do not establish.** Requests are served one after another here. What statements of two
requests do to each other is the subject of `Exceptions.Voiding` and `Matching.Deadlocks`.
-/

set_option autoImplicit false

namespace Recon

open Store (Committed)
open Store.Prog hiding pure bind

/-! Two payments of one reference on each side. -/

def paymentDay : Committed schema where
  db :=
    { transactions := [paymentSide 1 .internal "UTR1", paymentSide 2 .external "UTR1",
        paymentSide 3 .internal "UTR1", paymentSide 4 .external "UTR1"] }
  supply := 5

theorem paymentDay_untouched : Untouched paymentDay := by
  constructor
  case results => rfl
  case claims => rfl
  all_goals decide

/-- A person pairs two of them, and undoes that. -/
def pairedAndUndone : List Operation :=
  [.create ⟨constantDigests⟩ 1 2 "asha" "same payment" 10,
    .unmatch ⟨constantDigests⟩ 7 "asha" "wrong pair" 20,
    .create ⟨constantDigests⟩ 1 4 "asha" "right pair" 30]

example : (operate paymentDay pairedAndUndone).db.results.map (fun r => (r.id, r.status)) =
    [(7, .rejected), (12, .confirmed)] := by decide +kernel

/-- **Consistent tables.** After every history from UNMATCHED transactions a transaction has at most
one ACTIVE claim, an ACTIVE claim belongs to a match that stands or is under review and to one of
its sides, MATCHED are exactly the transactions that a settled match claims, both sides of a match
under review are UNMATCHED and hold its two claims, and neither a REJECTED match nor a VOIDED
transaction holds one. -/
theorem history_consistent {c : Committed schema} (h : Untouched c) (ops : List Operation) :
    Consistent (operate c ops).db :=
  (operate_sound h ops).ledger.consistent

theorem history_consistent_paymentDay : Consistent (operate paymentDay pairedAndUndone).db :=
  history_consistent paymentDay_untouched pairedAndUndone

/-- **Unmatching.** After every history, unmatching a row of a match that stands undoes the match: it
does not fail, it rejects every row of the match, releases their claims, returns their transactions
to the pool and touches nothing else. Where it fails, on whatever identifier, it changed nothing. -/
theorem unmatch_undoes {c : Committed schema} (h : Untouched c) (ops : List Operation)
    (logger : AuditLogger) (user reason : String) (now : Instant) :
    (∀ r ∈ (operate c ops).db.results, r.Settled →
      (unmatch logger r.id user reason now).wp
        (fun _ s' => Undone r user (operate c ops).db s'.view) (fun _ _ => False)
        (operate c ops).session) ∧
    ∀ id, (unmatch logger id user reason now).wp (fun _ _ => True)
      (fun _ s' => s'.view = (operate c ops).db) (operate c ops).session := by
  have hsound := operate_sound h ops
  refine ⟨fun r hr hset => ?_, fun id => ?_⟩
  · have hrow : (operate c ops).session.view.result? r.id = some r := by
      unfold Db.result?
      cases hfind : (operate c ops).db.results.find? (·.id = r.id) with
      | none => exact absurd (List.find?_eq_none.mp hfind r hr) (by simp)
      | some first =>
        obtain ⟨hfirst, hid⟩ := Db.mem_of_result? (d := (operate c ops).db) hfind
        exact hfind.trans (congrArg some (hsound.ledger.result_eq hfirst hr hid))
    have hall := hsound.groups.settled hr hset
    refine (unmatch_spec logger r.id user reason now _).mono ?_ ?_
    · rintro _ s' ⟨first, hfirst, -, -, -, row, hview⟩
      obtain rfl := Option.some.inj (hrow.symm.trans hfirst)
      rw [hview]
      exact hsound.ledger.undone hr hall user row
    · rintro _ s' ⟨-, -, hnone⟩
      obtain ⟨r', hr', hnot⟩ := hnone r hrow
      exact hnot (hall r' hr')
  · refine (unmatch_spec logger id user reason now _).mono (fun _ _ _ => trivial) ?_
    rintro _ s' ⟨hview, -⟩
    exact hview

theorem unmatch_undoes_paymentDay :
    (∀ r ∈ (operate paymentDay pairedAndUndone).db.results, r.Settled →
      (unmatch ⟨constantDigests⟩ r.id "asha" "again" 40).wp
        (fun _ s' => Undone r "asha" (operate paymentDay pairedAndUndone).db s'.view)
        (fun _ _ => False) (operate paymentDay pairedAndUndone).session) ∧
    ∀ id, (unmatch ⟨constantDigests⟩ id "asha" "again" 40).wp (fun _ _ => True)
      (fun _ s' => s'.view = (operate paymentDay pairedAndUndone).db)
      (operate paymentDay pairedAndUndone).session :=
  unmatch_undoes paymentDay_untouched pairedAndUndone ⟨constantDigests⟩ "asha" "again" 40

end Recon
