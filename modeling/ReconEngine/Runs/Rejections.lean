import ReconEngine.Matching.Deadlocks
import ReconEngine.Runs.Execution

/-!
# Rejections beside machines

Runs and the auto-resolver match transactions while people confirm and reject reviews, match by hand
and undo matches, one statement at a time and in any order. A run does all its work, the matching
and the auto-resolver's, in one transaction. A matching level reads the rejected pairs once, after
its pools; the auto-resolver reads them just before it settles a pair.

**The law** (`rejections_stand`): a pair that has a REJECTED result keeps it, and no machine gives it
another one that is not REJECTED, as long as nobody commits a rejection of a pair that an open level
has read as not rejected. Without the condition a person may match such a pair and undo the match in
between: both sides are back in the pool that the level holds, and nothing reads the pair again.

**What it does not establish.** That a machine gets anywhere: a step that would wait or raise is no
step of the run. Which pairs are rejected is read off the table; why a person rejected one is not
looked at.
-/

set_option autoImplicit false

namespace Recon

open Store
open Store.Prog hiding pure bind

/-! ## Rejected rows -/

namespace Db

/-- A row of the identifier is REJECTED. -/
def RowRejected (d : Db) (id : Id) : Prop := ∃ r ∈ d.results, r.id = id ∧ r.status = .rejected

/-- Where a row of an identifier is REJECTED, the row that is found by it is. -/
def RejectedFirst (d : Db) : Prop :=
  ∀ id, d.RowRejected id → ∃ r, d.result? id = some r ∧ r.status = .rejected

/-- Every pair that is rejected stays so. -/
def RejectionsStay (d d' : Db) : Prop := ∀ i e, d.Rejected i e → d'.Rejected i e

theorem RejectionsStay.refl (d : Db) : d.RejectionsStay d := fun _ _ h => h

/-- What is rejected stays so over two steps. -/
theorem RejectionsStay.trans {d d' d'' : Db} (h : d.RejectionsStay d') (h' : d'.RejectionsStay d'') :
    d.RejectionsStay d'' := fun i e hr => h' i e (h i e hr)

/-- Identifiers that name one row each find it. -/
theorem rejectedFirst_of_nodup {d : Db} (h : (d.results.map (·.id)).Nodup) : d.RejectedFirst := by
  rintro id ⟨r, hr, rfl, hrejected⟩
  refine ⟨r, ?_, hrejected⟩
  rw [result?]
  cases hfind : d.results.find? (·.id = r.id) with
  | none =>
    have := List.find?_eq_none.mp hfind r hr
    simp at this
  | some r' =>
    have hid : r'.id = r.id := by simpa using List.find?_some hfind
    rw [eq_of_key_eq h (List.mem_of_find?_eq_some hfind) hr hid]

end Db

/-- A log that adds no rejected row. -/
def AddsUnrejected (log : List RowWrite) : Prop :=
  ∀ r, .insertResult r ∈ log → r.status ≠ .rejected

/-- What a write does to the results. -/
theorem results_apply (w : RowWrite) (d : Db) :
    (∃ r, w = .insertResult r ∧ (w.apply d).results = d.results ++ [r]) ∨
    (∃ id status reviewer, w = .resultStatus id status reviewer ∧
      (w.apply d).results = updateIn (·.id) [id] (·.judge status reviewer) d.results) ∨
    (w.apply d).results = d.results := by
  cases w with
  | insertResult r => exact Or.inl ⟨r, rfl, rfl⟩
  | resultStatus id status reviewer => exact Or.inr (Or.inl ⟨id, status, reviewer, rfl, rfl⟩)
  | _ => exact Or.inr (Or.inr rfl)

section

variable {log : List RowWrite} {d : Db} {id i e : Id}

theorem AddsUnrejected.tail {w : RowWrite} (h : AddsUnrejected (w :: log)) : AddsUnrejected log :=
  fun r hr => h r (List.mem_cons_of_mem w hr)

/-- A row that is REJECTED after a log was so before, or the log has judged it. -/
theorem rowRejected_replay (h : AddsUnrejected log)
    (hr : (schema.replay log d).RowRejected id) :
    d.RowRejected id ∨ ∃ status reviewer, .resultStatus id status reviewer ∈ log := by
  induction log generalizing d with
  | nil => exact Or.inl hr
  | cons w log ih =>
    obtain hbefore | ⟨status, reviewer, hmem⟩ := ih h.tail hr
    · obtain ⟨r, hmem, hid, hrejected⟩ := hbefore
      obtain ⟨r', rfl, hresults⟩ | ⟨id', status, reviewer, rfl, hresults⟩ | hresults :=
        results_apply w d
      · have hmem' : r ∈ d.results ++ [r'] := hresults ▸ hmem
        obtain hold | hnew := List.mem_append.mp hmem'
        · exact Or.inl ⟨r, hold, hid, hrejected⟩
        · rw [List.mem_singleton.mp hnew] at hrejected
          exact absurd hrejected (h r' List.mem_cons_self)
      · have hmem' := hmem
        rw [show ((RowWrite.resultStatus id' status reviewer).apply d).results = _ from hresults] at hmem'
        obtain ⟨row, hrow, heq⟩ := mem_updateIn.mp hmem'
        by_cases hin : row.id ∈ [id']
        · rw [if_pos hin] at heq
          obtain rfl : row.id = id' := List.mem_singleton.mp hin
          subst heq
          exact Or.inr ⟨status, reviewer, hid ▸ List.mem_cons_self⟩
        · rw [if_neg hin] at heq
          subst heq
          exact Or.inl ⟨row, hrow, hid, hrejected⟩
      · exact Or.inl ⟨r, hresults ▸ hmem, hid, hrejected⟩
    · exact Or.inr ⟨status, reviewer, List.mem_cons_of_mem w hmem⟩

/-- A REJECTED row that a log judges only to reject it again keeps its pair and its status. -/
theorem row_replay {r : MatchResult} (hr : r ∈ d.results) (hrejected : r.status = .rejected)
    (h : ∀ status reviewer, .resultStatus r.id status reviewer ∈ log → status = .rejected) :
    (schema.replay log d).Rejected r.internalTransactionId r.externalTransactionId := by
  induction log generalizing d r with
  | nil => exact ⟨r, hr, hrejected, rfl, rfl⟩
  | cons w log ih =>
    have htail := fun status reviewer hmem => h status reviewer (List.mem_cons_of_mem w hmem)
    obtain ⟨r', rfl, hresults⟩ | ⟨id', status, reviewer, rfl, hresults⟩ | hresults :=
      results_apply w d
    · refine ih (d := (RowWrite.insertResult r').apply d) ?_ hrejected htail
      exact List.mem_append_left _ hr
    · by_cases hin : r.id ∈ [id']
      · obtain rfl : r.id = id' := List.mem_singleton.mp hin
        refine ih (d := (RowWrite.resultStatus r.id status reviewer).apply d)
          (r := r.judge status reviewer) ?_ (h status reviewer List.mem_cons_self) htail
        rw [hresults]
        exact mem_updateIn.mpr ⟨r, hr, if_pos hin⟩
      · refine ih (d := (RowWrite.resultStatus id' status reviewer).apply d) ?_ hrejected htail
        rw [hresults]
        exact mem_updateIn.mpr ⟨r, hr, if_neg hin⟩
    · refine ih (d := w.apply d) ?_ hrejected htail
      rw [hresults]
      exact hr

/-- The row that is found after a judgement. -/
theorem find_judged (id' : Id) (status : ResultStatus) (reviewer : String) (rs : List MatchResult)
    (id : Id) :
    (updateIn (·.id) [id'] (·.judge status reviewer) rs).find? (fun x => decide (x.id = id)) =
      (rs.find? fun x => decide (x.id = id)).map fun x =>
        if x.id ∈ [id'] then x.judge status reviewer else x := by
  have hid : ∀ r : MatchResult, (r.judge status reviewer).id = r.id := fun _ => rfl
  exact find_updateIn hid [id'] rs id

/-- A row that is found is still found, as it was, after a log that does not judge it. -/
theorem result_replay {r : MatchResult} (hr : d.result? id = some r)
    (h : ∀ status reviewer, .resultStatus id status reviewer ∉ log) :
    (schema.replay log d).result? id = some r := by
  induction log generalizing d with
  | nil => exact hr
  | cons w log ih =>
    refine ih (d := w.apply d) ?_ fun status reviewer hmem =>
      h status reviewer (List.mem_cons_of_mem w hmem)
    obtain ⟨r', rfl, hresults⟩ | ⟨id', status, reviewer, rfl, hresults⟩ | hresults :=
      results_apply w d
    · rw [Db.result?, hresults, List.find?_append, show d.results.find? _ = some r from hr]
      rfl
    · rw [Db.result?, hresults, find_judged, show d.results.find? _ = some r from hr]
      have hid : r.id = id := by simpa using List.find?_some hr
      have hne : r.id ∉ [id'] := by
        rintro hin
        obtain rfl : r.id = id' := List.mem_singleton.mp hin
        exact h status reviewer (hid ▸ List.mem_cons_self)
      rw [Option.map_some, if_neg hne]
    · rw [Db.result?, hresults]
      exact hr

/-- A write keeps rejections first where it adds no open result of a rejected pair. -/
theorem rejectedFirst_apply {w : RowWrite} (h : d.RejectedFirst) (hw : AddsUnrejected [w]) :
    (w.apply d).RejectedFirst := by
  rintro id ⟨r, hr, hid, hrejected⟩
  obtain ⟨r', rfl, hresults⟩ | ⟨id', status, reviewer, rfl, hresults⟩ | hresults :=
    results_apply w d
  · rw [hresults] at hr
    obtain hold | hnew := List.mem_append.mp hr
    · obtain ⟨first, hfirst, hstatus⟩ := h id ⟨r, hold, hid, hrejected⟩
      refine ⟨first, ?_, hstatus⟩
      rw [Db.result?, hresults, List.find?_append, show d.results.find? _ = some first from hfirst]
      rfl
    · rw [List.mem_singleton.mp hnew] at hrejected
      exact absurd hrejected (hw r' (List.mem_singleton_self _))
  · rw [hresults] at hr
    rw [Db.result?, hresults, find_judged]
    obtain ⟨row, hrow, heq⟩ := mem_updateIn.mp hr
    by_cases hin : row.id ∈ [id']
    · rw [if_pos hin] at heq
      subst heq
      obtain rfl : row.id = id := hid
      -- The judgement rejects every row of the identifier, so also the one that is found.
      have hfound : (d.results.find? fun x => decide (x.id = row.id)).isSome := by
        rw [List.find?_isSome]
        exact ⟨row, hrow, by simp⟩
      obtain ⟨first, hfirst⟩ := Option.isSome_iff_exists.mp hfound
      have hfirstId : first.id = row.id := by simpa using List.find?_some hfirst
      refine ⟨first.judge status reviewer, ?_, hrejected⟩
      rw [hfirst, Option.map_some, hfirstId, if_pos hin]
    · rw [if_neg hin] at heq
      subst heq
      obtain ⟨first, hfirst, hstatus⟩ := h id ⟨row, hrow, hid, hrejected⟩
      have hfirst' : d.results.find? (fun x => decide (x.id = id)) = some first := hfirst
      have hfirstId : first.id = id := by simpa using List.find?_some hfirst'
      refine ⟨first, ?_, hstatus⟩
      rw [hfirst', Option.map_some, hfirstId, if_neg (hid ▸ hin)]
  · rw [Db.result?, hresults]
    exact h id ⟨r, hresults ▸ hr, hid, hrejected⟩

theorem rejectedFirst_replay (h : d.RejectedFirst) (hlog : AddsUnrejected log) :
    (schema.replay log d).RejectedFirst := by
  induction log generalizing d with
  | nil => exact h
  | cons w log ih =>
    refine ih (rejectedFirst_apply h fun r hr => ?_) hlog.tail
    exact hlog r (List.mem_singleton.mp hr ▸ List.mem_cons_self)

end

/-! ## The protocol -/

/-- What a level that has read the rejected pairs goes on to rely on: none of its pairs is rejected
meanwhile. -/
def leavesRejections : Mark → Db → Db → Prop
  | .rejectedPairs internals externals, d, d' =>
    ∀ i ∈ internals, ∀ e ∈ externals, d'.Rejected i e → d.Rejected i e
  | _, _, _ => True

/-- The lock of a result keeps it from being rejected. A result that is not REJECTED is written for
a pair that is not rejected, and no commit takes a rejection back. -/
def rejecting : Protocol schema where
  agree l d d' := match l with
    | .result id => d'.RowRejected id → d.RowRejected id
    | _ => True
  same := leavesRejections
  inv _ d := d.RejectedFirst
  writes d w := match w with
    | .insertResult r =>
      r.status ≠ .rejected → ¬ d.Rejected r.internalTransactionId r.externalTransactionId
    | _ => True
  moves d d' := d.RejectionsStay d'
  agree_refl l d := by cases l <;> simp
  agree_trans l d d' d'' h h' := by
    cases l with
    | result id => exact fun hr => h (h' hr)
    | _ => trivial
  same_refl m d := by
    cases m with
    | rejectedPairs internals externals => exact fun _ _ _ _ h => h
    | _ => trivial
  same_trans m d d' d'' h h' := by
    cases m with
    | rejectedPairs internals externals =>
      exact fun i hi e he hr => h i hi e he (h' i hi e he hr)
    | _ => trivial
  inv_mono _ _ _ _ h := h

/-- What stands behind the log of a client: it adds no rejected row, and it judges only results that
it has locked, those that are REJECTED only to reject them again, and only if it `rejects`. -/
structure Judged (rejects : Prop) (k : Local schema) : Prop where
  adds : AddsUnrejected k.log
  locked : ∀ id status reviewer, .resultStatus id status reviewer ∈ k.log →
    .result id ∈ k.held ∧ (rejects ∧ status = .rejected ∨ ¬ k.db.RowRejected id)

/-- The write adds no result, and judges only results in `ids`, with the status. -/
def RowWrite.JudgesIn (ids : List Id) (status : ResultStatus) : RowWrite → Prop
  | .insertResult _ => False
  | .resultStatus id s _ => id ∈ ids ∧ s = status
  | _ => True

/-- The write neither adds nor judges a result. -/
abbrev RowWrite.Quiet : RowWrite → Prop := RowWrite.JudgesIn [] .rejected

section

variable {rejects : Prop} {k k' : Local schema} {n : Nat} {d : Db} {α : Type}

namespace Judged

/-- A client that has written nothing is judged. -/
theorem nil {held : List RowLock} {marks : List Mark} : Judged rejects ⟨held, marks, [], n, d⟩ :=
  ⟨fun _ h => absurd h List.not_mem_nil, fun _ _ _ h => absurd h List.not_mem_nil⟩

/-- What others commit leaves it standing. -/
theorem later (h : Judged rejects k) (hl : rejecting.Later k n d) {held : List RowLock}
    {marks : List Mark} (hheld : k.held ⊆ held) : Judged rejects ⟨held, marks, k.log, n, d⟩ where
  adds := h.adds
  locked id status reviewer hmem := by
    obtain ⟨hlock, hjudged⟩ := h.locked id status reviewer hmem
    exact ⟨hheld hlock, hjudged.imp_right fun hno hr => hno (hl.agree _ hlock hr)⟩

/-- What is rejected is so in the client's own view. -/
theorem view (h : Judged rejects k) (hl : rejecting.Later k n d) :
    d.RejectionsStay (schema.replay k.log d) := by
  rintro i e ⟨r, hr, hrejected, rfl, rfl⟩
  refine row_replay hr hrejected fun status reviewer hmem => ?_
  have hnow : Judged rejects ⟨k.held, k.marks, k.log, n, d⟩ := h.later hl (List.Subset.refl _)
  obtain ⟨-, ⟨-, hstatus⟩ | hno⟩ := hnow.locked _ _ _ hmem
  · exact hstatus
  · exact absurd ⟨r, hr, rfl, hrejected⟩ hno

/-- A log that stands may be committed. -/
theorem commitNow (h : Judged rejects k) :
    rejecting.Follows Prog.commitNow (fun _ _ => True) (fun _ _ => True) k := by
  intro n d hl
  refine ⟨fun l hheld => ?_, rejectedFirst_replay hl.inv h.adds, h.view hl, trivial⟩
  cases l with
  | result id =>
    intro hr
    obtain hbefore | ⟨status, reviewer, hmem⟩ := rowRejected_replay h.adds hr
    · exact hbefore
    · exact absurd (h.locked id status reviewer hmem).1 hheld
  | _ => trivial

/-- Work that adds no rejected row and judges only what may be judged. -/
theorem extended {W : RowWrite → Prop} (h : Judged rejects k) (hext : rejecting.Extends W k k')
    (hadds : ∀ r, W (.insertResult r) → r.status ≠ .rejected)
    (hjudges : ∀ id status reviewer, W (.resultStatus id status reviewer) →
      .result id ∈ k.held ∧ (rejects ∧ status = .rejected ∨ ¬ k.db.RowRejected id)) :
    Judged rejects k' := by
  obtain ⟨⟨locks, hheld⟩, ⟨ws, hlog, hws⟩, hagree⟩ := hext
  have hmem : ∀ w, w ∈ k'.log → w ∈ k.log ∨ W w := by
    intro w hw
    rw [hlog] at hw
    exact (List.mem_append.mp hw).imp_right (hws w)
  refine ⟨fun r hr => (hmem _ hr).elim (h.adds r) (hadds r), fun id status reviewer hr => ?_⟩
  obtain ⟨hlock, hjudged⟩ := (hmem _ hr).elim (h.locked id status reviewer) (hjudges id status reviewer)
  refine ⟨hheld ▸ List.mem_append_right _ hlock, hjudged.imp_right fun hno hnow => hno ?_⟩
  exact hagree _ hlock hnow

/-- What a savepoint gives back still stands behind what is left of the log. -/
theorem undone {W : RowWrite → Prop} (h : Judged rejects k) (hext : rejecting.Extends W k k') :
    Judged rejects { k' with held := k.held, log := k.log } where
  adds := h.adds
  locked id status reviewer hmem := by
    obtain ⟨hlock, hjudged⟩ := h.locked id status reviewer hmem
    exact ⟨hlock, hjudged.imp_right fun hno hnow => hno (hext.agree _ hlock hnow)⟩

end Judged

/-- Work that adds no result and judges what it has locked. -/
theorem judging_follows {p : Prog α} (ids : List Id) (status : ResultStatus)
    (hp : p.Work (RowWrite.JudgesIn ids status)) (hk : Judged rejects k)
    (hids : ∀ id ∈ ids, .result id ∈ k.held ∧
      (rejects ∧ status = .rejected ∨ ¬ k.db.RowRejected id)) :
    rejecting.Follows p (fun _ k' => Judged rejects k') (fun _ _ => True) k := by
  have hfollows : rejecting.Follows p (fun _ _ => True) (fun _ _ => True) k := by
    refine Protocol.Follows.work hp (fun d w hw => ?_) k
    cases w with
    | insertResult r => exact hw.elim
    | _ => trivial
  refine (hfollows.extends hp).mono (fun _ k' h => hk.extended h.2 (fun r hr => hr.elim) ?_)
    fun _ _ _ => trivial
  rintro id _ _ ⟨hid, rfl⟩
  exact hids id hid

/-- Work that neither adds nor judges results follows the protocol. -/
theorem quiet_follows {p : Prog α} (hp : p.Work RowWrite.Quiet) (hk : Judged rejects k) :
    rejecting.Follows p (fun _ k' => Judged rejects k') (fun _ _ => True) k :=
  judging_follows [] .rejected hp hk fun _ h => absurd h List.not_mem_nil

/-! ## Runs -/

/-- A level that respects the rejections it has read writes nothing against those that there are. -/
theorem RespectsRejections.follows {p : Prog α} (h : RespectsRejections p)
    (hs : p.SteadyToEnd fun _ => True) (hk : Judged rejects k) :
    rejecting.Follows p (fun _ k' => Judged rejects k') (fun _ _ => True) k := by
  obtain ⟨e, rfl⟩ | ⟨pairs, body, rfl, hbody⟩ := h
  · trivial
  refine Protocol.Follows.bind (Protocol.Follows.viewing fun n d hl => ?_)
  have hview := hk.view hl
  have hsteady := steady_of_level hs (schema.replay k.log d)
  have hwork := hbody (schema.replay k.log d)
  generalize schema.replay k.log d = v at hview hsteady hwork ⊢
  let k₁ : Local schema :=
    ⟨k.held, [Mark.rejectedPairs (pairs v).1 (pairs v).2] ++ k.marks, k.log, n, d⟩
  have hk₁ : Judged rejects k₁ := hk.later hl (List.Subset.refl _)
  have hwrites : ∀ d' w, leavesRejections (.rejectedPairs (pairs v).1 (pairs v).2) d d' →
      StageWrite (fun i e => i ∈ (pairs v).1 ∧ e ∈ (pairs v).2 ∧ ¬ v.Rejected i e) w →
      rejecting.writes d' w := by
    intro d' w hsame hw
    cases w with
    | insertResult r =>
      intro _ hrejected
      obtain ⟨-, hi, he, hallowed⟩ := hw
      exact hallowed (hview _ _ (hsame _ hi _ he hrejected))
    | _ => trivial
  have hfollows : rejecting.Follows (body v) (fun _ _ => True) (fun _ _ => True) k₁ :=
    Protocol.Follows.steady hwork hsteady (Mark.rejectedPairs (pairs v).1 (pairs v).2) d hwrites
      List.mem_cons_self (rejecting.same_refl _ d)
  refine Protocol.Follows.bind ((hfollows.extends hwork).mono ?_ fun _ _ _ => trivial)
  rintro a k₂ ⟨-, hext⟩
  have hk₂ : Judged rejects k₂ := hk₁.extended hext (fun r hr => hr.1) fun _ _ _ hr => hr.elim
  exact ⟨hk₂.adds, hk₂.locked⟩

/-- The statement follows the protocol. -/
theorem setBasedStage_judged (o : Orchestrator) (bankCode : String) (hk : Judged rejects k) :
    rejecting.Follows (o.setBasedStage bankCode) (fun _ k' => Judged rejects k') (fun _ _ => True)
      k := by
  unfold Orchestrator.setBasedStage
  split
  · have hsteady : (setBasedRun o.run bankCode o.range).SteadyToEnd fun _ => True := by
      obtain ⟨marks, next, heq, hnext⟩ := setBasedRun_steady o.run bankCode o.range
      rw [heq]
      exact fun d => hnext d _ (LocksRows.all _)
    exact (setBasedRun_respects _ _ _).follows hsteady hk
  · exact hk

/-- Pools that are read now are of the two sources. -/
theorem pools_judged (bankCode : String) (range : DateRange) (hk : Judged rejects k) :
    rejecting.Follows (pools bankCode range)
      (fun out k' => Judged rejects k' ∧ (∀ t ∈ out.1, t.source = .internal) ∧
        ∀ t ∈ out.2, t.source = .external) (fun _ _ => True) k := by
  refine (quiet_follows (work_pools _ _) hk).returns fun d d' => ⟨fun t ht => ?_, fun t ht => ?_⟩
  · exact (Db.available_iff.mp (Db.mem_findUnmatched.mp ht).2).2.1
  · exact (Db.available_iff.mp (Db.mem_findUnmatched.mp ht).2).2.1

/-- The exact stage relies on the pairs it has read. -/
theorem exactStage_judged (o : Orchestrator) (bankCode : String) (hk : Judged rejects k) :
    rejecting.Follows (o.exactStage bankCode) (fun _ k' => Judged rejects k') (fun _ _ => True)
      k := by
  refine Protocol.Follows.bind ((pools_judged bankCode o.range hk).mono ?_ fun _ _ h => h)
  rintro ⟨internals, externals⟩ k₁ ⟨hk₁, -, -⟩
  exact (exactRun_onPools _ _ _).respects.follows (exactRun_steady (LocksRows.all _) _) hk₁

theorem groupStage_judged (o : Orchestrator) (bankCode : String) (hk : Judged rejects k) :
    rejecting.Follows (o.groupStage bankCode) (fun _ k' => Judged rejects k') (fun _ _ => True)
      k := by
  unfold Orchestrator.groupStage
  split
  · rename_i rules _
    have hcross : rejecting.Follows (o.crossCurrencyStage bankCode rules)
        (fun _ k' => Judged rejects k') (fun _ _ => True) k := by
      unfold Orchestrator.crossCurrencyStage
      split
      · refine Protocol.Follows.bind ((pools_judged bankCode o.range hk).mono ?_ fun _ _ h => h)
        rintro ⟨internals, externals⟩ k₁ ⟨hk₁, -, -⟩
        exact Protocol.Follows.bind
          (crossCurrencyRun_onPools.respects.follows (crossCurrencyRun_steady (LocksRows.all _) _) hk₁)
      · exact hk
    refine Protocol.Follows.bind (hcross.mono ?_ fun _ _ h => h)
    intro cross k₁ hk₁
    refine Protocol.Follows.bind ((pools_judged bankCode o.range hk₁).mono ?_ fun _ _ h => h)
    rintro ⟨internals, externals⟩ k₂ ⟨hk₂, hi, he⟩
    exact Protocol.Follows.bind
      ((groupRun_onPools hi he).respects.follows (groupRun_steady _ (LocksRows.all _)) hk₂)
  · exact hk

theorem fuzzyStage_judged (o : Orchestrator) (internals externals : List NormalisedTransaction)
    (hk : Judged rejects k) :
    rejecting.Follows (o.fuzzyStage internals externals) (fun _ k' => Judged rejects k')
      (fun _ _ => True) k := by
  unfold Orchestrator.fuzzyStage
  split
  · exact hk
  · exact fuzzyRun_onPools.respects.follows (fuzzyRun_steady (LocksRows.all _) _) hk

theorem ruleStage_judged (o : Orchestrator) (bankCode : String) (hk : Judged rejects k) :
    rejecting.Follows (o.ruleStage bankCode) (fun _ k' => Judged rejects k') (fun _ _ => True)
      k := by
  unfold Orchestrator.ruleStage
  split
  · refine Protocol.Follows.bind ((pools_judged bankCode o.range hk).mono ?_ fun _ _ h => h)
    rintro ⟨internals, externals⟩ k₁ ⟨hk₁, -, -⟩
    exact Protocol.Follows.bind (ruleRun_onPools.respects.follows (ruleRun_steady (LocksRows.all _) _) hk₁)
  · exact hk

theorem countUnmatched_judged (bankCode : String) (source : Source) (range : DateRange)
    (hk : Judged rejects k) :
    rejecting.Follows (countUnmatched bankCode source range) (fun _ k' => Judged rejects k')
      (fun _ _ => True) k :=
  quiet_follows (Work.bind work_tables fun _ => work_pure _) hk

/-- Every stage of a run writes only what is not rejected. -/
theorem execute_judged (o : Orchestrator) (bankCode : String) (hk : Judged rejects k) :
    rejecting.Follows (o.execute bankCode) (fun _ k' => Judged rejects k') (fun _ _ => True) k := by
  refine Protocol.Follows.bind ((countUnmatched_judged _ _ _ hk).mono ?_ fun _ _ h => h)
  intro internalTotal k₁ hk₁
  refine Protocol.Follows.bind ((countUnmatched_judged _ _ _ hk₁).mono ?_ fun _ _ h => h)
  intro externalTotal k₂ hk₂
  refine Protocol.Follows.bind ((setBasedStage_judged o bankCode hk₂).mono ?_ fun _ _ h => h)
  intro setBasedMatched k₃ hk₃
  refine Protocol.Follows.bind ((exactStage_judged o bankCode hk₃).mono ?_ fun _ _ h => h)
  intro pythonExact k₄ hk₄
  refine Protocol.Follows.bind ((groupStage_judged o bankCode hk₄).mono ?_ fun _ _ h => h)
  rintro ⟨cross, group⟩ k₅ hk₅
  refine Protocol.Follows.bind ((pools_judged bankCode o.range hk₅).mono ?_ fun _ _ h => h)
  rintro ⟨internals, externals⟩ k₆ ⟨hk₆, -, -⟩
  refine Protocol.Follows.bind
    ((fuzzyStage_judged o internals externals hk₆).mono ?_ fun _ _ h => h)
  intro fuzzy k₇ hk₇
  refine Protocol.Follows.bind ((ruleStage_judged o bankCode hk₇).mono ?_ fun _ _ h => h)
  intro rule k₈ hk₈
  exact Protocol.Follows.bind ((countUnmatched_judged _ _ _ hk₈).mono (fun _ _ h => h)
    fun _ _ h => h)

/-! ## Decisions about results -/

/-- A result that is locked and found under review is not REJECTED. -/
theorem lockPending_judged (id : Id) (hk : Judged False k) :
    rejecting.Follows (lockPending id)
      (fun _ k' => Judged False k' ∧ .result id ∈ k'.held ∧ ¬ k'.db.RowRejected id)
      (fun _ _ => True) k := by
  refine Protocol.Follows.bind (Protocol.Follows.lockRow fun n d hl => ?_)
  have h₁ : Judged False ⟨.result id :: k.held, k.marks, k.log, n, d⟩ :=
    hk.later hl (List.subset_cons_self _ _)
  refine Protocol.Follows.bind (Protocol.Follows.view fun n' d' hl' => ?_)
  have h₂ : Judged False ⟨.result id :: k.held, k.marks, k.log, n', d'⟩ :=
    h₁.later hl' (List.Subset.refl _)
  split
  · trivial
  · rename_i result hfound
    split
    · rename_i hpending
      refine ⟨h₂, List.mem_cons_self, fun hr => ?_⟩
      obtain ⟨first, hfirst, hrejected⟩ := hl'.inv id hr
      have hview : Db.result? (schema.replay k.log d') id = some first := by
        refine result_replay hfirst fun status reviewer hmem => ?_
        obtain ⟨-, ⟨hf, -⟩ | hno⟩ := h₂.locked id status reviewer hmem
        · exact hf
        · exact hno hr
      obtain rfl := Option.some.inj (hview.symm.trans hfound)
      rw [hrejected] at hpending
      nomatch hpending
    · trivial

theorem append_judging (logger : AuditLogger) (e : AuditEvent) (ids : List Id)
    (status : ResultStatus) : (logger.append e).Work (RowWrite.JudgesIn ids status) := by
  refine (logger.append_work e).weaken ?_
  rintro _ ⟨row, rfl⟩
  trivial

/-- A confirmation judges a row that is under review. -/
theorem confirmMatch_judged (logger : AuditLogger) (id : Id) (reviewer : String)
    (note : Option String) (automated : Bool) (now : Instant) (hk : Judged False k) :
    rejecting.Follows (confirmMatch logger id reviewer note automated now)
      (fun _ k' => Judged False k') (fun _ _ => True) k := by
  refine Protocol.Follows.bind ((lockPending_judged id hk).mono ?_ fun _ _ h => h)
  rintro _ k₁ ⟨hk₁, hheld, hno⟩
  refine judging_follows [id] .confirmed ?_ hk₁ fun id' hid => ?_
  · refine Work.bind (Work.bind (work_lockRow _) fun _ => Work.bind (work_lockRow _) fun _ =>
      Work.bind work_tables fun d => Work.bind (work_require _ _) fun _ => work_pure _)
      fun transactions => ?_
    exact Work.bind work_tables fun d => Work.bind (work_require _ _) fun _ =>
      Work.bind (work_require _ _) fun _ => Work.bind (markAll_work (fun _ => trivial) _) fun _ =>
      Work.bind (work_put.mpr ⟨List.mem_singleton_self _, rfl⟩) fun _ =>
      Work.bind (append_judging _ _ _ _) fun _ => work_pure _
  · obtain rfl := List.mem_singleton.mp hid
    exact ⟨hheld, Or.inr hno⟩

theorem releaseClaims_judging {ids : List Id} {status : ResultStatus} :
    ∀ cs, (releaseClaims cs).Work (RowWrite.JudgesIn ids status)
  | [] => work_pure _
  | _ :: cs => Work.bind (Work.bind (work_lockRow _) fun _ => work_put.mpr trivial) fun _ =>
      releaseClaims_judging cs

theorem rejectMatch_judged (logger : AuditLogger) (id : Id) (reviewer reason : String)
    (now : Instant) (hk : Judged False k) :
    rejecting.Follows (rejectMatch logger id reviewer reason now) (fun _ k' => Judged False k')
      (fun _ _ => True) k := by
  refine Protocol.Follows.bind ((lockPending_judged id hk).mono ?_ fun _ _ h => h)
  rintro _ k₁ ⟨hk₁, hheld, hno⟩
  refine judging_follows [id] .rejected ?_ hk₁ fun id' hid => ?_
  · exact Work.bind work_tables fun d => Work.bind (releaseClaims_judging _) fun _ =>
      Work.bind (work_put.mpr ⟨List.mem_singleton_self _, rfl⟩) fun _ =>
      Work.bind (append_judging _ _ _ _) fun _ => work_pure _
  · obtain rfl := List.mem_singleton.mp hid
    exact ⟨hheld, Or.inr hno⟩

/-- The rows of a match are locked one by one. -/
theorem lockResults_judged : ∀ (rows : List MatchResult) {k : Local schema}, Judged True k →
    rejecting.Follows (lockResults rows)
      (fun _ k' => Judged True k' ∧ (∀ r ∈ rows, .result r.id ∈ k'.held) ∧ k.held ⊆ k'.held)
      (fun _ _ => True) k
  | [], k, hk => ⟨hk, fun _ h => absurd h List.not_mem_nil, List.Subset.refl _⟩
  | r :: rows, k, hk => by
    refine Protocol.Follows.bind (Protocol.Follows.lockRow fun n d hl => ?_)
    have h₁ : Judged True ⟨.result r.id :: k.held, k.marks, k.log, n, d⟩ :=
      hk.later hl (List.subset_cons_self _ _)
    refine (lockResults_judged rows h₁).mono ?_ fun _ _ h => h
    rintro _ k' ⟨hk', hrows, hheld⟩
    refine ⟨hk', fun r' hr' => ?_, fun l hl => hheld (List.mem_cons_of_mem _ hl)⟩
    obtain rfl | hr' := List.mem_cons.mp hr'
    · exact hheld List.mem_cons_self
    · exact hrows r' hr'

/-- Undoing a match rejects the rows it has locked. -/
theorem unmatch_judged (logger : AuditLogger) (id : Id) (user reason : String) (now : Instant)
    (hk : Judged True k) :
    rejecting.Follows (unmatch logger id user reason now) (fun _ k' => Judged True k')
      (fun _ _ => True) k := by
  refine Protocol.Follows.bind (Protocol.Follows.lockRow fun n d hl => ?_)
  have h₁ : Judged True ⟨.result id :: k.held, k.marks, k.log, n, d⟩ :=
    hk.later hl (List.subset_cons_self _ _)
  refine Protocol.Follows.bind (Protocol.Follows.view fun n' d' hl' => ?_)
  have h₂ : Judged True ⟨.result id :: k.held, k.marks, k.log, n', d'⟩ :=
    h₁.later hl' (List.Subset.refl _)
  split
  · trivial
  · rename_i first _
    generalize (schema.replay k.log d').matchRows first = rows
    refine Protocol.Follows.bind ((lockResults_judged rows h₂).mono ?_ fun _ _ h => h)
    rintro _ k₃ ⟨hk₃, hrows, -⟩
    refine judging_follows (rows.map (·.id)) .rejected ?_ hk₃ fun id' hid => ?_
    · have hreturn : ∀ ts, (returnToPool ts).Work
          (RowWrite.JudgesIn (rows.map (·.id)) .rejected) := by
        intro ts
        induction ts with
        | nil => exact work_pure _
        | cons t ts ih => exact Work.bind (setMatchStatus_work trivial) fun _ => ih
      have hreject : ∀ rs ⊆ rows, (rejectRows user rs).Work
          (RowWrite.JudgesIn (rows.map (·.id)) .rejected) := by
        intro rs
        induction rs with
        | nil => exact fun _ => work_pure _
        | cons r rs ih =>
          intro hrs
          exact Work.bind (work_put.mpr ⟨List.mem_map_of_mem (hrs List.mem_cons_self), rfl⟩)
            fun _ => ih fun x hx => hrs (List.mem_cons_of_mem r hx)
      exact Work.bind (work_require _ _) fun _ => Work.bind work_tables fun _ =>
        Work.bind (releaseClaims_judging _) fun _ => Work.bind work_tables fun _ =>
        Work.bind (hreturn _) fun _ => Work.bind (hreject rows (List.Subset.refl _)) fun _ =>
        Work.bind (append_judging _ _ _ _) fun _ => work_pure _
    · obtain ⟨r, hr, rfl⟩ := List.mem_map.mp hid
      exact ⟨hrows r hr, Or.inl ⟨trivial, rfl⟩⟩

/-- A manual match writes what it likes, but no rejected row and no judgement. -/
theorem createMatch_judged (logger : AuditLogger) (internalId externalId : Id) (user note : String)
    (now : Instant) (hk : Judged True k) :
    rejecting.lenient.Follows (createMatch logger internalId externalId user note now)
      (fun _ k' => Judged True k') (fun _ _ => True) k := by
  have hwork := createMatch_work logger internalId externalId user note now
  refine ((Protocol.Follows.work hwork (fun _ _ _ => trivial) k).extends hwork).mono ?_
    fun _ _ _ => trivial
  rintro _ k' ⟨-, hext⟩
  refine hk.extended ⟨hext.held, hext.log, hext.agree⟩ (fun r hr => ?_) fun _ _ _ hr => hr.elim
  obtain ⟨-, hconfirmed⟩ := hr
  rw [hconfirmed]
  nofun

/-! ## The auto-resolver -/

theorem readTransaction_judged (id : Id) (hk : Judged rejects k) :
    rejecting.Follows (readTransaction id) (fun _ k' => Judged rejects k') (fun _ _ => True) k :=
  quiet_follows (readTransaction_work id) hk

theorem record_judged (key : String) (a : Option α) (hk : Judged rejects k) :
    rejecting.Follows (record key a) (fun _ k' => Judged rejects k') (fun _ _ => True) k :=
  quiet_follows (record_work key a) hk

/-- A leftover pair is settled only when it is not rejected, and as long as it is not. -/
theorem settleLeftover_judged (internal external : NormalisedTransaction) (ruleId : String)
    (hk : Judged rejects k) :
    rejecting.Follows (settleLeftover internal external ruleId) (fun _ k' => Judged rejects k')
      (fun _ _ => True) k := by
  refine Protocol.Follows.bind (Protocol.Follows.require (fun _ => ?_) fun _ => trivial)
  refine Protocol.Follows.bind (Protocol.Follows.viewing fun n d hl => ?_)
  refine Protocol.Follows.bind (Protocol.Follows.require (fun hallowed => ?_) fun _ => trivial)
  have hno : ¬ d.Rejected internal.id external.id := by
    intro hrejected
    have hmem := Db.mem_rejectedPairs.mpr ⟨List.mem_singleton_self internal.id, hk.view hl _ _ hrejected⟩
    simp only [Bool.not_eq_true', List.contains_eq_mem, decide_eq_false_iff_not] at hallowed
    exact hallowed hmem
  let k₁ : Local schema :=
    ⟨k.held, [Mark.rejectedPairs [internal.id] [external.id]] ++ k.marks, k.log, n, d⟩
  have hk₁ : Judged rejects k₁ := hk.later hl (List.Subset.refl _)
  have hwork : (recordPair (autoResolveColumns ruleId internal external)).Work
      (LevelWrite fun m => m = autoResolveColumns ruleId internal external) := recordPair_level rfl
  have hwrites : ∀ d' w, leavesRejections (.rejectedPairs [internal.id] [external.id]) d d' →
      LevelWrite (fun m => m = autoResolveColumns ruleId internal external) w →
      rejecting.writes d' w := by
    intro d' w hsame hw
    cases w with
    | insertResult r =>
      intro _ hrejected
      have hcolumns : r.toMatchColumns = autoResolveColumns ruleId internal external := hw
      rw [hcolumns] at hrejected
      exact hno (hsame _ (List.mem_singleton_self _) _ (List.mem_singleton_self _) hrejected)
    | _ => trivial
  have hfollows : rejecting.Follows (recordPair (autoResolveColumns ruleId internal external))
      (fun _ _ => True) (fun _ _ => True) k₁ :=
    Protocol.Follows.steady hwork (L := fun _ => True) (recordPair_steady trivial trivial)
      (Mark.rejectedPairs [internal.id] [external.id]) d hwrites List.mem_cons_self
      (rejecting.same_refl _ d)
  refine Protocol.Follows.bind ((hfollows.extends hwork).mono ?_ fun _ _ _ => trivial)
  rintro out k₂ ⟨-, hext⟩
  have hk₂ : Judged rejects k₂ := by
    refine hk₁.extended hext (fun r hr => ?_) fun _ _ _ hr => hr.elim
    rw [show r.toMatchColumns = _ from hr]
    nofun
  cases out with
  | none => trivial
  | some id => exact quiet_follows (markAll_work (fun _ => trivial) _) hk₂

theorem settleMatched_judged (logger : AuditLogger) (result : Id) (ruleId : String) (now : Instant)
    (hk : Judged False k) :
    rejecting.Follows (settleMatched logger result ruleId now) (fun _ k' => Judged False k')
      (fun _ _ => True) k := by
  refine Protocol.Follows.bind (Protocol.Follows.view fun n d hl => ?_)
  have h₁ : Judged False ⟨k.held, k.marks, k.log, n, d⟩ := hk.later hl (List.Subset.refl _)
  split
  · trivial
  · split
    · exact Protocol.Follows.bind ((confirmMatch_judged logger result autoResolver (some ruleId)
        true now h₁).mono (fun _ _ h => h) fun _ _ h => h)
    · exact h₁
    · exact h₁
    · trivial

/-- An action of the auto-resolver settles a pair that it has just read as not rejected. -/
theorem act_judged (logger : AuditLogger) (e : ReconException) (now : Instant)
    (hk : Judged False k) :
    rejecting.Follows (act logger e now) (fun _ k' => Judged False k') (fun _ _ => True) k := by
  unfold act
  split
  · refine quiet_follows ?_ hk
    exact Work.bind (record_work _ _) fun _ => Work.bind (readTransaction_work _) fun _ =>
      Work.bind (record_work _ _) fun _ => Work.bind work_tables fun _ =>
      Work.bind (work_require _ _) fun _ => Work.bind (work_lockRow _) fun _ => work_put.mpr trivial
  · exact hk
  · exact hk
  · split
    · trivial
    · rename_i ruleId _
      refine Protocol.Follows.bind ((record_judged _ _ hk).mono ?_ fun _ _ h => h)
      intro i k₁ hk₁
      refine Protocol.Follows.bind ((readTransaction_judged _ hk₁).mono ?_ fun _ _ h => h)
      intro internal k₂ hk₂
      refine Protocol.Follows.bind ((record_judged _ _ hk₂).mono ?_ fun _ _ h => h)
      intro x k₃ hk₃
      refine Protocol.Follows.bind ((readTransaction_judged _ hk₃).mono ?_ fun _ _ h => h)
      intro external k₄ hk₄
      have hsettle : rejecting.Follows
          (settlePair logger e.affectedRecords internal external ruleId now)
          (fun _ k' => Judged False k') (fun _ _ => True) k₄ := by
        unfold settlePair
        split
        · exact settleMatched_judged _ _ _ _ hk₄
        · exact settleLeftover_judged _ _ _ hk₄
      refine Protocol.Follows.bind (hsettle.mono ?_ fun _ _ h => h)
      intro _ k₅ hk₅
      split
      · refine quiet_follows ?_ hk₅
        exact Work.bind (work_require _ _) fun _ => Work.bind (work_lockRow _) fun _ =>
          Work.bind work_tables fun _ => Work.bind (work_require _ _) fun _ => work_put.mpr trivial
      · exact hk₅

theorem autoOutcome_quiet (logger : AuditLogger) (now : Instant) (e : ReconException)
    (acted : Bool) : (autoOutcome logger now e acted).Work RowWrite.Quiet := by
  unfold autoOutcome
  split
  · exact Work.bind (work_put.mpr trivial) fun _ => Work.bind (work_put.mpr trivial) fun _ =>
      Work.bind (append_judging _ _ _ _) fun _ => work_pure _
  · exact Work.bind (work_put.mpr trivial) fun _ => Work.bind (work_put.mpr trivial) fun _ =>
      Work.bind (append_judging _ _ _ _) fun _ => work_pure _

theorem autoResolveOne_judged (logger : AuditLogger) (now : Instant) (e : ReconException)
    (hk : Judged False k) :
    rejecting.Follows (autoResolveOne logger now e) (fun _ k' => Judged False k')
      (fun _ _ => True) k := by
  have hwork : (do act logger e now; return true : Prog Bool).Work RowWrite.ByAction :=
    Work.bind (act_work logger e now) fun _ => work_pure _
  refine Protocol.Follows.bind (Protocol.Follows.attempt hwork
    (Protocol.Follows.bind ((act_judged logger e now hk).mono (fun _ k₁ hk₁ => ?_) ?_)))
  · exact quiet_follows (Work.bind (autoOutcome_quiet _ _ _ _) fun _ => work_pure _) hk₁
  · intro err k₁ _ hext
    split
    · exact quiet_follows (Work.bind (autoOutcome_quiet _ _ _ _) fun _ => work_pure _)
        (hk.undone hext)
    · trivial

theorem eachRow_judged {one : ReconException → Prog Bool}
    (h : ∀ e k, Judged False k →
      rejecting.Follows (one e) (fun _ k' => Judged False k') (fun _ _ => True) k) :
    ∀ (es : List ReconException) {k : Local schema}, Judged False k →
      rejecting.Follows (eachRow one es) (fun _ k' => Judged False k') (fun _ _ => True) k
  | [], _, hk => hk
  | e :: es, k, hk => by
    refine Protocol.Follows.bind ((h e k hk).mono ?_ fun _ _ h => h)
    intro yes k₁ hk₁
    exact Protocol.Follows.bind ((eachRow_judged h es hk₁).mono (fun _ _ h => h) fun _ _ h => h)

/-- A run of the auto-resolver follows the protocol turn by turn. -/
theorem autoResolverRun_judged (logger : AuditLogger) (bankCode : String) (runId : Option Id)
    (now : Instant) (hk : Judged False k) :
    rejecting.Follows (autoResolverRun logger bankCode runId now) (fun _ k' => Judged False k')
      (fun _ _ => True) k := by
  refine Protocol.Follows.bind (Protocol.Follows.view fun n d hl => ?_)
  have h₁ : Judged False ⟨k.held, k.marks, k.log, n, d⟩ := hk.later hl (List.Subset.refl _)
  refine Protocol.Follows.bind ((quiet_follows (lockAll_work _) h₁).mono ?_ fun _ _ h => h)
  intro _ k₂ hk₂
  exact Protocol.Follows.bind ((eachRow_judged (fun e _ h => autoResolveOne_judged logger now e h) _
    hk₂).mono (fun _ _ h => h) fun _ _ h => h)

/-! ## A run as a whole -/

/-- Bringing the table of configurations up to date judges nothing. -/
theorem ofSync_quiet {w : RowWrite} (h : w.OfSync) : w.Quiet := by
  cases w with
  | insertResult r => exact h.elim
  | resultStatus id status reviewer => exact h.elim
  | _ => trivial

theorem ofCreation_quiet {w : RowWrite} (h : w.OfCreation) : w.Quiet := by
  cases w with
  | insertResult r => exact h.elim
  | resultStatus id status reviewer => exact h.elim
  | _ => trivial

theorem ofTriage_quiet {w : RowWrite} (h : w.OfTriage) : w.Quiet := by
  cases w with
  | insertResult r => exact h.elim
  | resultStatus id status reviewer => exact h.elim
  | _ => trivial

/-- Escalation settles pairs only through the auto-resolver. -/
theorem escalate_judged (logger : AuditLogger) (bankCode : String) (runId : Option Id)
    (now : Instant) (hk : Judged False k) :
    rejecting.Follows (escalate logger bankCode runId now) (fun _ k' => Judged False k')
      (fun _ _ => True) k := by
  refine Protocol.Follows.bind
    ((autoResolverRun_judged logger bankCode runId now hk).mono ?_ fun _ _ h => h)
  intro auto k₁ hk₁
  have hrest : (do
      let queued ← assignQueues bankCode now queueByTier
      let sla ← slaScan logger now
      return ⟨auto, queued, sla⟩ : Prog EscalationOutcome).Work RowWrite.Quiet :=
    Work.bind ((assignQueues_ofTriage _ _ _).weaken fun _ => ofTriage_quiet) fun _ =>
      Work.bind ((slaScan_ofTriage _ _).weaken fun _ => ofTriage_quiet) fun _ => work_pure _
  exact quiet_follows hrest hk₁

/-- The guarded region of `execute`, from the table of configurations to the escalation. -/
theorem settle_judged (e : RunSurroundings) (run : ReconciliationRun) (hk : Judged False k) :
    rejecting.Follows (e.settle run) (fun _ k' => Judged False k') (fun _ _ => True) k := by
  have hsync : (syncBankConfigurations e.logger e.loaded "system:run-service" e.now).Work
      RowWrite.Quiet :=
    Work.foldlM _ _ fun _ item _ => (syncBank_work item).weaken fun _ => ofSync_quiet
  have haudit : ∀ outcome, (e.auditMatches run outcome).Work RowWrite.Quiet := fun _ =>
    Work.bind work_tables fun _ => Work.bind (append_judging _ _ _ _) fun _ => work_pure _
  have hclassify : (e.classifier.classifyRun run.bankCode run.id e.now
      (e.staleAfterDays.map fun _ => e.today) e.staleAfterDays
      ⟨run.dateFrom, run.dateTo⟩).Work RowWrite.Quiet :=
    (classifyRun_work _ _ _ _ _ _ _).weaken fun _ => ofCreation_quiet
  refine Protocol.Follows.bind ((quiet_follows hsync hk).mono ?_ fun _ _ h => h)
  intro _ k₁ hk₁
  refine Protocol.Follows.bind
    ((execute_judged (e.orchestrator run) run.bankCode hk₁).mono ?_ fun _ _ h => h)
  intro matching k₂ hk₂
  refine Protocol.Follows.bind ((quiet_follows (haudit matching) hk₂).mono ?_ fun _ _ h => h)
  intro _ k₃ hk₃
  refine Protocol.Follows.bind ((quiet_follows hclassify hk₃).mono ?_ fun _ _ h => h)
  intro classified k₄ hk₄
  exact Protocol.Follows.bind
    ((escalate_judged e.logger run.bankCode (some run.id) e.now hk₄).mono (fun _ _ h => h)
      fun _ _ h => h)

end

/-! ## The law -/

/-- What matches without a person: a run with all that it does, the matching stages alone, and the
auto-resolver alone. -/
inductive Machine where
  | running (e : RunSurroundings) (run : ReconciliationRun)
  | matching (o : Orchestrator) (bankCode : String)
  | resolving (logger : AuditLogger) (bankCode : String) (runId : Option Id) (now : Instant)

/-- Each in one transaction. -/
def Machine.client : Machine → Client schema
  | .running e run => { prog := do let _ ← e.settle run; commitNow }
  | .matching o bankCode => { prog := do let _ ← o.execute bankCode; commitNow }
  | .resolving logger bankCode runId now =>
    { prog := do let _ ← autoResolverRun logger bankCode runId now; commitNow }

/-- The machines, then the people, before any of them has started. -/
def besideMachines (machines : List Machine) (people : List Judgement) (d : Db) (n : Nat) :
    System schema where
  db := d
  supply := n
  clients := machines.map (·.client) ++ people.map (·.client)

section

variable {machines : List Machine} {people : List Judgement} {d : Db} {n : Nat}

/-- Every machine follows the protocol from its start. -/
theorem Machine.knows (m : Machine) (hd : d.RejectedFirst) : rejecting.Knows m.client n d := by
  have hnil : Judged False (⟨[], [], [], n, d⟩ : Local schema) := Judged.nil
  cases m with
  | running e run =>
    exact ⟨n, d, Protocol.Later.refl hd, Protocol.Follows.bind
      ((settle_judged e run hnil).mono (fun _ _ h => h.commitNow) fun _ _ h => h)⟩
  | matching o bankCode =>
    exact ⟨n, d, Protocol.Later.refl hd, Protocol.Follows.bind
      ((execute_judged o bankCode hnil).mono (fun _ _ h => h.commitNow) fun _ _ h => h)⟩
  | resolving logger bankCode runId now =>
    exact ⟨n, d, Protocol.Later.refl hd, Protocol.Follows.bind
      ((autoResolverRun_judged logger bankCode runId now hnil).mono (fun _ _ h => h.commitNow)
        fun _ _ h => h)⟩

theorem Judgement.knows (j : Judgement) (hd : d.RejectedFirst) :
    rejecting.lenient.Knows j.client n d := by
  have hnil : ∀ rejects, Judged rejects (⟨[], [], [], n, d⟩ : Local schema) := fun _ => Judged.nil
  have hlater : rejecting.Later ⟨[], [], [], n, d⟩ n d := Protocol.Later.refl hd
  cases j with
  | create logger internalId externalId user note now =>
    exact ⟨n, d, Protocol.later_lenient.mpr hlater, Protocol.Follows.bind
      ((createMatch_judged logger internalId externalId user note now (hnil True)).mono
        (fun _ _ h => h.commitNow.lenient) fun _ _ h => h)⟩
  | unmatch logger id user reason now =>
    refine Protocol.Knows.lenient ⟨n, d, hlater, Protocol.Follows.bind
      ((unmatch_judged logger id user reason now (hnil True)).mono (fun _ _ h => h.commitNow)
        fun _ _ h => h)⟩
  | confirm logger id reviewer note now =>
    refine Protocol.Knows.lenient ⟨n, d, hlater, Protocol.Follows.bind
      ((confirmMatch_judged logger id reviewer note false now (hnil False)).mono
        (fun _ _ h => h.commitNow) fun _ _ h => h)⟩
  | reject logger id reviewer reason now =>
    refine Protocol.Knows.lenient ⟨n, d, hlater, Protocol.Follows.bind
      ((rejectMatch_judged logger id reviewer reason now (hnil False)).mono
        (fun _ _ h => h.commitNow) fun _ _ h => h)⟩

/-- Machines and people that have done nothing yet are ready. -/
theorem besideMachines_ready (hd : d.RejectedFirst) :
    rejecting.lenient.Ready (besideMachines machines people d n) := by
  have hclient : ∀ c ∈ (besideMachines machines people d n).clients,
      c.held = [] ∧ rejecting.lenient.Knows c n d := by
    intro c hc
    obtain hc | hc := List.mem_append.mp hc
    · obtain ⟨m, -, rfl⟩ := List.mem_map.mp hc
      exact ⟨by cases m <;> rfl, (m.knows hd).lenient⟩
    · obtain ⟨j, -, rfl⟩ := List.mem_map.mp hc
      exact ⟨by cases j <;> rfl, j.knows hd⟩
  refine ⟨hd, ?_, fun i c hc => (hclient c (List.mem_of_getElem? hc)).2⟩
  rintro i j l ⟨c, hc, hl⟩
  rw [(hclient c (List.mem_of_getElem? hc)).1] at hl
  exact absurd hl List.not_mem_nil

/-- **Rejections stand** in a run where no step rejects a pair that another client has read as not
rejected and may still settle: a pair that has been rejected stays so, and no machine goes on to write
a result for it that is not REJECTED. -/
theorem rejections_stand (machines : List Machine) (people : List Judgement) (d : Db) (n : Nat)
    (hids : (d.results.map (·.id)).Nodup) (es es' : List Event) (t u : System schema)
    (hstable : (besideMachines machines people d n).Stable leavesRejections (es ++ es'))
    (hrun : (besideMachines machines people d n).run es = some t) (hrun' : t.run es' = some u)
    (i e : Id) (hrejected : t.db.Rejected i e) :
    u.db.Rejected i e ∧ ∀ m < machines.length, ∀ r, u.Writes m (.insertResult r) →
      r.status ≠ .rejected → ¬ (r.internalTransactionId = i ∧ r.externalTransactionId = e) := by
  have hfirst := Db.rejectedFirst_of_nodup hids
  have hready : rejecting.lenient.Ready (besideMachines machines people d n) :=
    besideMachines_ready hfirst
  obtain ⟨hbefore, hafter⟩ := System.stable_append hstable hrun
  have hkept : rejecting.lenient.Ready u ∧ t.db.RejectionsStay u.db :=
    System.stable_induction (I := fun v => rejecting.lenient.Ready v ∧ t.db.RejectionsStay v.db)
      (fun v e v' hv hstep hmarks => by
        obtain ⟨hready', hmoves⟩ := hv.1.step hstep hmarks
        refine ⟨hready', hv.2.trans ?_⟩
        obtain hsame | hmoves := hmoves
        · rw [hsame]
          exact Db.RejectionsStay.refl v.db
        · exact hmoves)
      es' ⟨hready.run es hbefore hrun, Db.RejectionsStay.refl t.db⟩ hafter hrun'
  have hstays := hkept.2 i e hrejected
  refine ⟨hstays, fun m hm r hwrites hunrejected hpair => ?_⟩
  have hclient : (besideMachines machines people d n).clients[m]? = some machines[m].client := by
    rw [besideMachines, List.getElem?_append_left (by rwa [List.length_map]), List.getElem?_map,
      List.getElem?_eq_getElem hm, Option.map_some]
  obtain ⟨c₁, hc₁, hk₁⟩ := hready.knows_run es hbefore hrun hclient (machines[m].knows hfirst)
  obtain ⟨c₂, hc₂, hk₂⟩ := (hready.run es hbefore hrun).knows_run es' hafter hrun' hc₁ hk₁
  obtain ⟨c, next, hc, hprog⟩ := hwrites
  obtain rfl := Option.some.inj (hc.symm.trans hc₂)
  have hwritten := hk₂.writes hprog
  obtain ⟨rfl, rfl⟩ := hpair
  exact hwritten hunrejected hstays

end

/-! ## A rejection that comes too late -/

/-- One person matches the two by hand, another undoes the match, and a run is about to start. -/
def matchedAndUndone : System schema :=
  besideMachines [.matching exactOnly "AXIS"]
    [.create ⟨constantDigests⟩ 1 2 "ann" "same payment" 0,
      .unmatch ⟨constantDigests⟩ 5 "bob" "not ours" 0] onePayment 3

/-- The match is made and undone. -/
def undone : List Event := List.replicate 40 (.run 1) ++ List.replicate 40 (.run 2)

/-- The run has read its pools and the rejected pairs before. -/
def undoneTooLate : List Event := List.replicate 5 (.run 0) ++ undone

/-- The result that a client is about to write. -/
def nextResult (s : System schema) (m : Nat) : Option MatchResult :=
  match s.clients[m]? with
  | some ⟨.write (.insertResult r) _, _, _, _⟩ => some r
  | _ => none

/-- What a client inserts next can be computed. -/
theorem writes_of_nextResult {s : System schema} {m : Nat} {r : MatchResult}
    (h : nextResult s m = some r) : s.Writes m (.insertResult r) := by
  unfold nextResult at h
  split at h
  · rename_i next held marks log hclient
    cases h
    exact ⟨_, next, hclient, rfl⟩
  · cases h

theorem rejections_stand_undone :
    ∃ t u, matchedAndUndone.run undone = some t ∧ t.run (List.replicate 20 (.run 0)) = some u ∧
      t.db.Rejected 1 2 ∧ u.db.Rejected 1 2 ∧ ∀ m < 1, ∀ r, u.Writes m (.insertResult r) →
        r.status ≠ .rejected → ¬ (r.internalTransactionId = 1 ∧ r.externalTransactionId = 2) := by
  have hcheck : ((matchedAndUndone.run undone).bind fun t =>
      (t.run (List.replicate 20 (.run 0))).map fun _ => t.db.rejectedPairs [1]) =
        some [(1, 2)] := by decide +kernel
  obtain ⟨t, hrun, hrest⟩ := Option.bind_eq_some_iff.mp hcheck
  obtain ⟨u, hrun', hpairs⟩ := Option.map_eq_some_iff.mp hrest
  have hrejected : t.db.Rejected 1 2 :=
    (Db.mem_rejectedPairs.mp (hpairs ▸ List.mem_singleton_self _)).2
  exact ⟨t, u, hrun, hrun', hrejected, rejections_stand [.matching exactOnly "AXIS"] _ onePayment 3
    List.nodup_nil undone (List.replicate 20 (.run 0)) t u
    (System.stable_of_takesTurns _ _ _ (by decide +kernel)) hrun hrun' 1 2 hrejected⟩

/-- The run matches the pair again, over the rejection. -/
theorem rejection_overridden :
    ¬ ∀ (machines : List Machine) (people : List Judgement) (d : Db) (n : Nat),
      (d.results.map (·.id)).Nodup → ∀ (es es' : List Event) (t u : System schema),
      (besideMachines machines people d n).run es = some t → t.run es' = some u →
      ∀ i e : Id, t.db.Rejected i e →
      u.db.Rejected i e ∧ ∀ m < machines.length, ∀ r, u.Writes m (.insertResult r) →
        r.status ≠ .rejected → ¬ (r.internalTransactionId = i ∧ r.externalTransactionId = e) := by
  intro h
  have hcheck : ((matchedAndUndone.run undoneTooLate).bind fun t =>
      (t.run (List.replicate 9 (.run 0))).map fun u => (t.db.rejectedPairs [1],
        (nextResult u 0).map fun r =>
          (r.status, r.internalTransactionId, r.externalTransactionId))) =
        some ([(1, 2)], some (.autoMatched, 1, 2)) := by decide +kernel
  obtain ⟨t, hrun, hrest⟩ := Option.bind_eq_some_iff.mp hcheck
  obtain ⟨u, hrun', hboth⟩ := Option.map_eq_some_iff.mp hrest
  obtain ⟨hpairs, hnext⟩ := Prod.mk.inj hboth
  obtain ⟨r, hr, hcolumns⟩ := Option.map_eq_some_iff.mp hnext
  obtain ⟨hstatus, hpair⟩ := Prod.mk.inj hcolumns
  have hrejected : t.db.Rejected 1 2 :=
    (Db.mem_rejectedPairs.mp (hpairs ▸ List.mem_singleton_self _)).2
  refine (h [.matching exactOnly "AXIS"] _ onePayment 3 List.nodup_nil undoneTooLate
    (List.replicate 9 (.run 0)) t u hrun hrun' 1 2 hrejected).2 0 Nat.one_pos r
    (writes_of_nextResult hr) ?_ (Prod.mk.inj hpair)
  rw [hstatus]
  nofun

end Recon
