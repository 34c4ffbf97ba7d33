import ReconEngine.Runs.Backlog
import ReconEngine.Runs.History

/-!
# Repeated backlog calls

A call with the batch key of an earlier one finds the earlier runs under its keys, and executes none
of them again. A request conflicts where its key was used for another request, and creates a run
where its key is new and its bank is free; both are read off the store, and `start_cases` says that
`RunService.start` does as they say.

A call over another range than the earlier one is turned away. The conflict shows at the key that
the two calls share, most often the last one of a bank, when the runs of the days before it are
committed: such a call leaves runs behind, unless each of those days has its run already.

**The law** (`backlogRun_repeats`): a call executes only runs that were not there when the passes
over its banks began; and where a call that conflicts at some bank finds nothing to create at any,
it changes nothing and executes nothing.

**What it does not establish.** Which days a call has: they are read off the unmatched transactions,
so a later call with the same key may have fewer. Two calls at once are not looked at.
-/

set_option autoImplicit false

namespace Recon

open Store
open Store.Prog hiding pure bind

/-! ## What a key was used for -/

/-- What a key was used for. -/
def Db.asked (d : Db) (key : String) : Option (String × RunMode × Option Date × Option Date) :=
  (d.runByKey key).map fun run => (run.bankCode, run.mode, run.dateFrom, run.dateTo)

def StartRequest.asks (q : StartRequest) : String × RunMode × Option Date × Option Date :=
  (q.bankCode, q.mode, q.dateFrom, q.dateTo)

/-- The key of the request was used for another one. -/
def StartRequest.Conflicts (q : StartRequest) (d : Db) : Prop :=
  q.rangeOrdered = true ∧ ∃ asked ∈ d.asked q.idempotencyKey, asked ≠ q.asks

/-- A run of the bank is in progress, and recent enough for `_reap_stale` to leave it. -/
def RunService.Busy (svc : RunService) (d : Db) (bankCode : String) (now : Instant) : Prop :=
  ∃ run ∈ d.runs, run.bankCode = bankCode ∧ run.status = .running ∧
    run.id ∉ (d.staleRuns bankCode (now - svc.staleRunAfter)).map (·.id)

/-- The key of the request is new, and nothing keeps its run from being inserted. -/
def StartRequest.Creates (q : StartRequest) (svc : RunService) (d : Db) (now : Instant) : Prop :=
  q.rangeOrdered = true ∧ d.asked q.idempotencyKey = none ∧
    (q.defer = false → ¬ svc.Busy d q.bankCode now)

/-- Some request creates its run, and no request up to it conflicts. -/
def CreatesFirst (svc : RunService) (d : Db) : List (StartRequest × Instant) → Prop
  | [] => False
  | (q, now) :: rest => ¬ q.Conflicts d ∧ (q.Creates svc d now ∨ CreatesFirst svc d rest)

instance (q : StartRequest) (d : Db) : Decidable (q.Conflicts d) :=
  inferInstanceAs (Decidable (_ ∧ ∃ asked ∈ d.asked q.idempotencyKey, asked ≠ q.asks))

instance (svc : RunService) (d : Db) (bankCode : String) (now : Instant) :
    Decidable (svc.Busy d bankCode now) :=
  inferInstanceAs (Decidable (∃ run ∈ d.runs, run.bankCode = bankCode ∧ run.status = .running ∧
    run.id ∉ (d.staleRuns bankCode (now - svc.staleRunAfter)).map (·.id)))

instance (q : StartRequest) (svc : RunService) (d : Db) (now : Instant) :
    Decidable (q.Creates svc d now) :=
  inferInstanceAs (Decidable (_ ∧ _ ∧ (q.defer = false → ¬ svc.Busy d q.bankCode now)))

instance decidableCreatesFirst (svc : RunService) (d : Db) :
    ∀ requests, Decidable (CreatesFirst svc d requests)
  | [] => inferInstanceAs (Decidable False)
  | (q, now) :: rest =>
    have := decidableCreatesFirst svc d rest
    inferInstanceAs (Decidable (¬ q.Conflicts d ∧ (q.Creates svc d now ∨ CreatesFirst svc d rest)))

namespace BacklogCall

variable (call : BacklogCall) (svc : RunService) (clock : BacklogClock) (bankCode : String)

/-- Some key of the pass was used for another request. -/
def Conflicting (d : Db) : Prop :=
  ∃ request ∈ call.requests clock bankCode d, request.1.Conflicts d

/-- The pass creates a run, and no conflict comes before it. -/
def Creating (d : Db) : Prop := CreatesFirst svc d (call.requests clock bankCode d)

instance (d : Db) : Decidable (call.Conflicting clock bankCode d) :=
  inferInstanceAs (Decidable (∃ request ∈ call.requests clock bankCode d, request.1.Conflicts d))

instance (d : Db) : Decidable (call.Creating svc clock bankCode d) :=
  decidableCreatesFirst svc d _

end BacklogCall

/-- From the session, the pass executes no run outside `P`: what executing another run would do
makes no difference. -/
def ExecutesOnly {α : Type} (pass : (Id → Instant → Prog Unit) → Prog α)
    (execute : Id → Instant → Prog Unit) (P : Id → Prop) (s : Session) : Prop :=
  ∀ execute' : Id → Instant → Prog Unit, (∀ id now, P id → execute' id now = execute id now) →
    (pass execute').exec s = (pass execute).exec s

/-! ## What a request finds under its key -/

theorem StartRequest.not_conflicts {q : StartRequest} {d : Db}
    (h : d.asked q.idempotencyKey = none) : ¬ q.Conflicts d := by
  rintro ⟨-, asked, hasked, -⟩
  rw [h] at hasked
  cases hasked

theorem Db.asked_eq_none {d : Db} {key : String} :
    d.asked key = none ↔ d.runByKey key = none := Option.map_eq_none_iff

/-- A write that inserts no run under the key leaves what the key was used for. -/
theorem asked_apply {w : RowWrite} {key : String} (h : ∀ run, w = .insertRun run →
    run.idempotencyKey ≠ key) (d : Db) : (w.apply d).asked key = d.asked key := by
  cases w with
  | insertRun run =>
    have hne := h run rfl
    unfold Db.asked Db.runByKey
    show Option.map _ (List.find? _ (d.runs ++ [run])) = _
    rw [List.find?_append]
    simp [hne]
  | updateRun id columns =>
    unfold Db.asked Db.runByKey
    show Option.map _ (List.find? _ (updateIn (·.id) [id] columns.set d.runs)) = _
    unfold updateIn
    rw [List.find?_map]
    have hsame : ((fun run : ReconciliationRun => decide (run.idempotencyKey = key)) ∘
        fun run => if run.id ∈ [id] then columns.set run else run) =
        fun run => decide (run.idempotencyKey = key) := by
      funext run
      simp only [Function.comp_apply]
      split <;> rfl
    rw [hsame, Option.map_map]
    congr 1
    funext run
    simp only [Function.comp_apply]
    split <;> rfl
  | _ => rfl

variable {svc : RunService}

/-- Reaping keeps what the keys were used for, and the runs that it leaves hold the slot. -/
theorem reapStale_keeps (bankCode : String) (now : Instant) (s : Session) :
    (svc.reapStale bankCode now).wp
      (fun _ s' => s'.supply = s.supply ∧ (∀ key, s'.view.asked key = s.view.asked key) ∧
        (svc.Busy s.view bankCode now → s'.view.slotTaken bankCode = true))
      (fun _ _ => False) s := by
  unfold RunService.reapStale
  rw [bind_eq, wp_bind, wp_tables]
  -- What a reaped row leaves alone: every key, and the rows with other identifiers.
  have hturn : ∀ run ∈ s.view.staleRuns bankCode (now - svc.staleRunAfter), ∀ (_ : Unit) s₁,
      (s₁.supply = s.supply ∧ (∀ key, s₁.view.asked key = s.view.asked key) ∧
        ∀ other ∈ s.view.runs, other.id ∉
          (s.view.staleRuns bankCode (now - svc.staleRunAfter)).map (·.id) → other ∈ s₁.view.runs) →
      (svc.reapOne bankCode now run).wp (fun _ s₂ => s₂.supply = s.supply ∧
        (∀ key, s₂.view.asked key = s.view.asked key) ∧
        ∀ other ∈ s.view.runs, other.id ∉
          (s.view.staleRuns bankCode (now - svc.staleRunAfter)).map (·.id) → other ∈ s₂.view.runs)
        (fun _ _ => False) s₁ := by
    intro run hrun _ s₁ h₁
    obtain ⟨hsupply, hasked, hothers⟩ := h₁
    unfold RunService.reapOne
    simp only [bind_eq, wp_bind, wp_lockRow, wp_tables, wp_ite, wp_put]
    split
    · rw [Session.view_write]
      refine ⟨hsupply, fun key => ?_, fun other hother hstale => ?_⟩
      · refine (asked_apply (fun run' hrun' => ?_) _).trans (hasked key)
        cases hrun'
      · have hne : other.id ≠ run.id := fun heq => hstale (heq ▸ List.mem_map_of_mem hrun)
        show other ∈ updateIn (·.id) [run.id] _ s₁.view.runs
        refine mem_updateIn.mpr ⟨other, hothers other hother hstale, if_neg ?_⟩
        exact fun hmem => hne (List.mem_singleton.mp hmem)
    · exact ⟨hsupply, hasked, hothers⟩
  refine (wp_foldlM _ hturn () s ⟨rfl, fun _ => rfl, fun _ h _ => h⟩).mono ?_ fun _ _ h => h
  intro _ s' h
  obtain ⟨hsupply, hasked, hothers⟩ := h
  refine ⟨hsupply, hasked, fun hbusy => ?_⟩
  obtain ⟨run, hrun, hbank, hrunning, hleft⟩ := hbusy
  exact List.any_eq_true.mpr ⟨run, hothers run hrun hleft, decide_eq_true ⟨hbank, hrunning⟩⟩

/-! ## Starting -/

theorem auditState_raises (run : ReconciliationRun) (before after rationale : String)
    (at' : Instant) (metrics : Option RunMetrics) :
    (svc.auditState run before after rationale at' metrics).Raises
      fun e => e ≠ ReconError.idempotencyConflict := by
  refine Raises.bind ?_ fun _ => raises_pure _
  refine Raises.bind (raises_require ReconError.noConfusion) fun _ =>
    Raises.bind (raises_require ReconError.noConfusion) fun _ =>
    Raises.bind (raises_lockRow _) fun _ => Raises.bind raises_view fun d =>
      Raises.bind raises_newId fun eventId => ?_
  dsimp only
  split
  · rename_i e herror
    rintro rfl
    cases computeHash_error herror
  · exact Raises.bind (raises_put _) fun _ => raises_pure _

/-- A slot that is taken is the only error of taking it. -/
theorem takeSlot_raises (bankCode : String) (s : Session) :
    (RunService.takeSlot bankCode).wp (fun _ _ => True)
      (fun e _ => e = .integrity oneRunningIndex) s := by
  refine Raises.wp ?_ s
  exact Raises.bind (raises_lockRow _) fun _ => Raises.bind raises_view fun _ => raises_require rfl

/-- **What a request comes to.** It is turned away as a conflict exactly when its key was used for
another request; otherwise it finds its run and leaves everything as it was, creates it, or
fails. -/
theorem start_cases (q : StartRequest) (now : Instant) (s : Session) :
    (svc.start q now).wp
      (fun out s' => ¬ q.Conflicts s.view ∧ (out.created = false ∧ s' = s ∨
        out.created = true ∧ s.supply ≤ out.run.id ∧ q.Creates svc s.view now))
      (fun e _ => e = .idempotencyConflict ↔ q.Conflicts s.view) s := by
  unfold RunService.start
  simp only [bind_eq, wp_bind, wp_require, wp_tables]
  split
  swap
  · rename_i hrange
    exact iff_of_false (by simp) fun h => hrange h.1
  rename_i hrange
  split
  · rename_i existing hexisting
    have hasked : s.view.asked q.idempotencyKey =
        some (existing.bankCode, existing.mode, existing.dateFrom, existing.dateTo) := by
      rw [Db.asked, hexisting]
      rfl
    unfold replayRun
    rw [wp_ite]
    split
    · rename_i hne
      exact iff_of_true rfl ⟨hrange, _, hasked, hne⟩
    · rename_i heq
      refine ⟨?_, .inl ⟨rfl, rfl⟩⟩
      intro h
      obtain ⟨-, asked, hmem, hne⟩ := h
      rw [hasked] at hmem
      exact heq (Option.some.inj hmem ▸ hne)
  · rename_i hnone
    have hfree : s.view.asked q.idempotencyKey = none := Db.asked_eq_none.mpr hnone
    have hclear : ¬ q.Conflicts s.view := StartRequest.not_conflicts hfree
    rw [wp_bind]
    refine (reapStale_keeps q.bankCode now s).mono ?_ fun _ _ h => h.elim
    intro _ s₁ h₁
    obtain ⟨hsupply, hasked, hbusy⟩ := h₁
    rw [wp_bind, wp_newId, wp_bind]
    refine Work.wp_attempt (Work.bind (insertRun_work _) fun _ => work_pure none) ?_
    rw [wp_bind]
    have hinsert : (RunService.insertRun (q.run s₁.supply now)).wp
        (fun _ _ => q.Creates svc s.view now)
        (fun e _ => e = .integrity oneRunningIndex) s₁.take := by
      have hkey : (s₁.view.runByKey q.idempotencyKey).isNone = true :=
        Option.isNone_iff_eq_none.mpr (Db.asked_eq_none.mp ((hasked _).trans hfree))
      unfold RunService.insertRun
      simp only [bind_eq, wp_bind, wp_lockRow, wp_tables, wp_require, wp_put]
      rw [if_pos (by exact hkey)]
      unfold RunService.indexRun
      rw [wp_ite]
      split
      · refine (wp.and (takeSlot_spec _ s₁.take) (takeSlot_raises _ s₁.take)).mono ?_ ?_
        · rintro _ s₂ ⟨⟨-, hslot⟩, -⟩
          refine ⟨hrange, hfree, fun _ hb => ?_⟩
          rw [show s₁.take.view = s₁.view from rfl] at hslot
          exact absurd ((hbusy hb).symm.trans hslot) (by decide)
        · exact fun _ _ h => h.2
      · rename_i hstatus
        refine ⟨hrange, hfree, fun hdefer => absurd ?_ hstatus⟩
        show (if q.defer then RunStatus.pending else RunStatus.running) = .running
        rw [hdefer]
        rfl
    refine hinsert.mono ?_ ?_
    · intro _ s₂ hcreates
      rw [wp_pure]
      dsimp only
      rw [wp_bind]
      refine ((auditState_raises _ _ _ _ _ _).wp s₂).mono ?_ ?_
      · intro _ _ _
        exact ⟨hclear, .inr ⟨rfl, hsupply ▸ le_refl _, hcreates⟩⟩
      · exact fun _ _ he => iff_of_false he hclear
    · rintro e s₂ rfl
      unfold RunService.startConflict
      rw [wp_ite, if_neg (by decide), wp_ite, if_pos rfl]
      exact iff_of_false ReconError.noConfusion hclear

/-! ## One day -/

/-- The parameters of a run's work raise nothing that belongs to starting runs. -/
structure RunWork.NeverConflicts (work : RunWork) : Prop where
  prepare : ∀ run, (work.prepare run).Raises fun e => e ≠ ReconError.idempotencyConflict
  measure : ∀ run prepared settled,
    (work.measure run prepared settled).Raises fun e => e ≠ ReconError.idempotencyConflict

section Execution

variable {svc : RunService} {work : RunWork}

theorem insertsNoRun_leavesRuns {w : RowWrite} (h : w.LeavesRuns) : w.InsertsNoRun := by
  rintro run rfl
  exact h

/-- Executing a run inserts none. -/
theorem execute_writes (id : Id) (now : Instant) :
    (svc.execute work id now).Writes RowWrite.InsertsNoRun := by
  have hleaves : ∀ {α : Type} {p : Prog α}, p.Work RowWrite.LeavesRuns →
      p.Writes RowWrite.InsertsNoRun := fun hp =>
    (hp.weaken fun _ hw => insertsNoRun_leavesRuns hw).writes
  have hread : (RunService.readRunning id none).Work RowWrite.InsertsNoRun := by
    refine Work.bind (work_tablesMarking _) fun d => ?_
    split
    · exact work_fail _
    · exact Work.bind (work_require _ _) fun _ => work_pure _
  refine Writes.bind hread.writes fun held => ?_
  refine Writes.bind (hleaves (work.prepare_work held.run)) fun prepared => ?_
  refine Writes.bind (Writes.attempt ?_ fun e => ?_) fun settled => ?_
  · exact Writes.bind (hleaves (work.settle_work held.run prepared)) fun _ => writes_pure _
  · exact Writes.bind writes_rollbackNow fun _ =>
      Writes.bind (finish_work _ _ _ _ _ _).writes fun _ => writes_pure _
  · split
    · exact writes_pure _
    · exact Writes.bind (hleaves (work.measure_work held.run prepared _)) fun _ =>
        (finish_work _ _ _ _ _ _).writes

/-- Finishing a run raises no conflict. -/
theorem finish_raises (id : Id) (held : Option HeldRun) (status : RunStatus)
    (metrics : Option RunMetrics) (errorSummary : Option String) (now : Instant) :
    (svc.finish id held status metrics errorSummary now).Raises
      fun e => e ≠ ReconError.idempotencyConflict := by
  refine Raises.bind raises_view fun d => ?_
  split
  · exact ReconError.noConfusion
  · exact Raises.bind (raises_lockRow _) fun _ => Raises.bind (raises_put _) fun _ =>
      auditState_raises _ _ _ _ _ _

theorem execute_raises (hwork : work.NeverConflicts) (id : Id) (now : Instant) :
    (svc.execute work id now).Raises fun e => e ≠ ReconError.idempotencyConflict := by
  refine Raises.bind (Raises.bind (fun _ => trivial) fun d => ?_) fun held => ?_
  · split
    · exact ReconError.noConfusion
    · exact Raises.bind (raises_require ReconError.noConfusion) fun _ => raises_pure _
  · refine Raises.bind (hwork.prepare held.run) fun prepared => ?_
    refine Raises.bind (Raises.attempt fun e => ?_) fun settled => ?_
    · exact Raises.bind raises_rollbackNow fun _ =>
        Raises.bind (finish_raises _ _ _ _ _ _) fun _ => raises_pure _
    · split
      · exact raises_pure _
      · exact Raises.bind (hwork.measure held.run prepared _) fun _ => finish_raises _ _ _ _ _ _

end Execution

theorem Session.view_of_log {s : Session} (h : s.log = []) : s.view = s.committed := by
  rw [Store.Session.view, h]
  rfl

namespace BacklogCall

variable {call : BacklogCall} {svc : RunService} {execute execute' : Id → Instant → Prog Unit}
  {clock : BacklogClock} {bankCode : String} {s : Session}

/-- Two passes agree on a day when they execute alike the run that it creates. -/
theorem dayTurn_congr (result : BankBacklogResult) (day : Date)
    (h : (svc.start (call.dayRequest bankCode day) (clock.startedAt day)).wp
      (fun out _ => out.created = true → ∀ now, execute' out.run.id now = execute out.run.id now)
      (fun _ _ => True) s) :
    (call.dayTurn svc execute' clock bankCode result day).exec s =
      (call.dayTurn svc execute clock bankCode result day).exec s := by
  refine exec_bind_left (exec_handle_left (exec_bind_congr (h.mono ?_ fun _ _ h => h)) _) _
  intro out s₁ hout
  refine exec_bind_congr (wp_commitNow.mpr ?_)
  by_cases hcreated : out.created = true
  · rw [if_pos hcreated, if_pos hcreated, hout hcreated]
  · rw [if_neg hcreated, if_neg hcreated]

/-- What is left of a day after its run is started or found reads only. -/
theorem dayTurn_of_startDay (result : BankBacklogResult) {day : Date} {Q : Session → Prop}
    {E : ReconError → Session → Prop}
    (h : (call.startDay svc execute clock bankCode day).wp (fun _ s' => Q s') E s)
    (hE : ∀ s', Q s' → E (.environment "AssertionError") s') :
    (call.dayTurn svc execute clock bankCode result day).wp (fun _ s' => Q s') E s := by
  unfold dayTurn
  rw [bind_eq, wp_bind]
  refine h.mono ?_ fun _ _ h => h
  intro started s₁ hs₁
  cases started with
  | none => exact hs₁
  | some started =>
    dsimp only
    rw [bind_eq, wp_bind, wp_tables]
    split
    · exact hE s₁ hs₁
    · exact hs₁

/-- A day whose request creates no run leaves the store as it was. -/
theorem startDay_keeps (day : Date) (hlog : s.log = [])
    (hday : ¬ (call.dayRequest bankCode day).Conflicts s.committed →
      ¬ (call.dayRequest bankCode day).Creates svc s.committed (clock.startedAt day)) :
    (call.startDay svc execute clock bankCode day).wp
      (fun _ s' => s'.committed = s.committed ∧ s'.log = [] ∧
        ¬ (call.dayRequest bankCode day).Conflicts s.committed)
      (fun _ s' => s'.committed = s.committed) s := by
  have hview := Session.view_of_log hlog
  rw [← hview] at hday
  unfold startDay
  rw [wp_handle, bind_eq, wp_bind]
  refine ((start_cases _ _ s).and ((start_work _ _).wp_frame s)).mono ?_ ?_
  · rintro out s₁ ⟨⟨hclear, hout⟩, -⟩
    rcases hout with ⟨hcreated, rfl⟩ | ⟨-, -, hcreates⟩
    swap
    · exact absurd hcreates (hday hclear)
    rw [bind_eq, wp_bind, wp_commitNow, hcreated]
    exact ⟨hview, rfl, hview ▸ hclear⟩
  · rintro e s₁ ⟨hconflict, hcommitted, -⟩
    cases e with
    | runAlreadyActive _ =>
      rw [bind_eq, wp_bind, wp_rollbackNow]
      refine ⟨hcommitted, rfl, fun h => ?_⟩
      exact ReconError.noConfusion (hconflict.mpr (hview.symm ▸ h))
    | _ => exact hcommitted

/-- A day whose request does not conflict ends between two transactions, and not in a conflict. -/
theorem startDay_clear (day : Date) (hlog : s.log = [])
    (hexecute : ∀ id now, (execute id now).Raises fun e => e ≠ ReconError.idempotencyConflict)
    (hday : ¬ (call.dayRequest bankCode day).Conflicts s.committed) :
    (call.startDay svc execute clock bankCode day).wp (fun _ s' => s'.log = [])
      (fun e _ => e ≠ .idempotencyConflict) s := by
  rw [← Session.view_of_log hlog] at hday
  unfold startDay
  rw [wp_handle, bind_eq, wp_bind]
  refine (start_cases _ _ s).mono ?_ ?_
  · rintro out s₁ -
    rw [bind_eq, wp_bind, wp_commitNow, wp_ite]
    split
    · rw [bind_eq, wp_bind]
      refine ((hexecute _ _).wp _).mono ?_ ?_
      · exact fun _ _ _ => rfl
      · intro e s₂ he
        cases e with
        | runAlreadyActive _ => exact rfl
        | _ => exact he
    · exact rfl
  · intro e s₁ hconflict
    cases e with
    | runAlreadyActive _ => exact rfl
    | idempotencyConflict => exact absurd (hconflict.mp rfl) hday
    | _ => exact ReconError.noConfusion

/-- A day inserts a run under its own key only. -/
theorem dayTurn_writes (hexecute : ∀ id now, (execute id now).Writes RowWrite.InsertsNoRun)
    (result : BankBacklogResult) (day : Date) :
    (call.dayTurn svc execute clock bankCode result day).Writes
      (RowWrite.InsertsUnder (call.keyOf bankCode (isoformat day))) := by
  have hstart : (svc.start (call.dayRequest bankCode day) (clock.startedAt day)).Writes
      (RowWrite.InsertsUnder (call.keyOf bankCode (isoformat day))) :=
    (start_work (call.dayRequest bankCode day) _).writes
  refine Writes.bind (Writes.handle (Writes.bind hstart fun started => ?_) fun e => ?_)
    fun started => ?_
  · refine Writes.bind writes_commitNow fun _ => ?_
    split
    · exact Writes.bind ((hexecute _ _).weaken fun _ hw => hw.under _) fun _ =>
        Writes.bind writes_commitNow fun _ => writes_pure _
    · exact writes_pure _
  · split
    · exact Writes.bind writes_rollbackNow fun _ => writes_pure _
    · exact writes_fail _
  · split
    · exact writes_pure _
    · refine Writes.bind work_tables.writes fun d => ?_
      split
      · exact writes_fail _
      · exact writes_pure _

/-! ## The days of a pass -/

/-- Days before which no request creates a run leave the store as it was, and execute nothing. -/
theorem days_keep {c : Db} {rest : List (StartRequest × Instant)} :
    ∀ (days : List Date) (result : BankBacklogResult) {s : Session}, s.committed = c → s.log = [] →
      ¬ CreatesFirst svc c (call.dayRequests clock bankCode days ++ rest) →
      (∀ execute', (days.foldlM (call.dayTurn svc execute' clock bankCode) result).exec s =
        (days.foldlM (call.dayTurn svc execute clock bankCode) result).exec s) ∧
      (days.foldlM (call.dayTurn svc execute clock bankCode) result).wp
        (fun _ s' => s'.committed = c ∧ s'.log = [] ∧ ¬ CreatesFirst svc c rest)
        (fun _ s' => s'.committed = c) s
  | [], _, _, hc, hlog, hnone => ⟨fun _ => rfl, hc, hlog, hnone⟩
  | day :: days, result, s, hc, hlog, hnone => by
    have hday : ¬ (call.dayRequest bankCode day).Conflicts s.committed →
        ¬ (call.dayRequest bankCode day).Creates svc s.committed (clock.startedAt day) :=
      fun hclear hcreates => hnone ⟨hc ▸ hclear, .inl (hc ▸ hcreates)⟩
    have hrest : ¬ (call.dayRequest bankCode day).Conflicts s.committed →
        ¬ CreatesFirst svc c (call.dayRequests clock bankCode days ++ rest) :=
      fun hclear hcreates => hnone ⟨hc ▸ hclear, .inr hcreates⟩
    have hkeeps : (call.dayTurn svc execute clock bankCode result day).wp
        (fun _ s' => s'.committed = s.committed ∧ s'.log = [] ∧
          ¬ (call.dayRequest bankCode day).Conflicts s.committed)
        (fun _ s' => s'.committed = s.committed) s :=
      dayTurn_of_startDay result (startDay_keeps day hlog hday) fun _ h => h.1
    have hsame : ∀ execute', (call.dayTurn svc execute' clock bankCode result day).exec s =
        (call.dayTurn svc execute clock bankCode result day).exec s := by
      intro execute'
      refine dayTurn_congr result day ((start_cases _ _ s).mono ?_ fun _ _ _ => trivial)
      rintro out s₁ ⟨hclear, hout⟩ hcreated
      rw [Session.view_of_log hlog] at hclear hout
      rcases hout with ⟨hfound, -⟩ | ⟨-, -, hcreates⟩
      · exact absurd (hcreated.symm.trans hfound) (by decide)
      · exact absurd hcreates (hday hclear)
    simp only [List.foldlM_cons, bind_eq]
    refine ⟨fun execute' => ?_, ?_⟩
    · rw [exec_bind_left (hsame execute')]
      refine exec_bind_congr (hkeeps.mono ?_ fun _ _ _ => trivial)
      rintro result' s₁ ⟨hc₁, hlog₁, hclear⟩
      exact (days_keep days result' (hc₁.trans hc) hlog₁ (hrest hclear)).1 execute'
    · rw [wp_bind]
      refine hkeeps.mono ?_ fun _ _ h => h.trans hc
      rintro result' s₁ ⟨hc₁, hlog₁, hclear⟩
      exact (days_keep days result' (hc₁.trans hc) hlog₁ (hrest hclear)).2

/-- A run under one key conflicts with no request under another. -/
theorem conflicts_apply {w : RowWrite} {q : StartRequest} {key : String} (hw : w.InsertsUnder key)
    (hne : key ≠ q.idempotencyKey) (d : Db) : q.Conflicts (w.apply d) ↔ q.Conflicts d := by
  unfold StartRequest.Conflicts
  rw [asked_apply fun run hrun => hw run hrun ▸ hne]

/-- Days without a conflict end without one, and give the queued run none. -/
theorem days_clear
    (hraises : ∀ id now, (execute id now).Raises fun e => e ≠ ReconError.idempotencyConflict)
    (hwrites : ∀ id now, (execute id now).Writes RowWrite.InsertsNoRun) :
    ∀ (days : List Date) (result : BankBacklogResult) {s : Session}, days.Nodup → s.log = [] →
      (∀ day ∈ days, ¬ (call.dayRequest bankCode day).Conflicts s.committed) →
      (call.queueFull = true → ¬ (call.fullRequest bankCode).Conflicts s.committed) →
      (days.foldlM (call.dayTurn svc execute clock bankCode) result).wp
        (fun _ s' => s'.log = [] ∧
          (call.queueFull = true → ¬ (call.fullRequest bankCode).Conflicts s'.committed))
        (fun e _ => e ≠ .idempotencyConflict) s
  | [], _, _, _, hlog, _, hfull => ⟨hlog, hfull⟩
  | day :: days, result, s, hdays, hlog, hclear, hfull => by
    rw [List.foldlM_cons, bind_eq, wp_bind]
    obtain ⟨hfresh, hdays⟩ := List.nodup_cons.mp hdays
    have hturn : (call.dayTurn svc execute clock bankCode result day).wp (fun _ s' => s'.log = [])
        (fun e _ => e ≠ .idempotencyConflict) s :=
      dayTurn_of_startDay result (startDay_clear day hlog hraises (hclear day List.mem_cons_self))
        fun _ _ => ReconError.noConfusion
    have hwritten : (call.dayTurn svc execute clock bankCode result day).Writes _ :=
      dayTurn_writes hwrites result day
    have hkept := hwritten.wp_keeps
        (C := fun d => (∀ day ∈ days, ¬ (call.dayRequest bankCode day).Conflicts d) ∧
          (call.queueFull = true → ¬ (call.fullRequest bankCode).Conflicts d))
        (by
          rintro w d hw ⟨hothers, hfull⟩
          refine ⟨fun other hother => ?_, fun hqueue => ?_⟩
          · refine mt (conflicts_apply hw (fun heq => ?_) d).mp (hothers other hother)
            exact hfresh (isoformat_inj (keyOf_inj heq) ▸ hother)
          · exact mt (conflicts_apply hw (fun heq => isoformat_ne_full day (keyOf_inj heq)) d).mp
              (hfull hqueue))
        ⟨fun other hother => hclear other (List.mem_cons_of_mem day hother), hfull⟩ hlog
    refine (hturn.and hkept).mono ?_ fun _ _ h => h.1
    rintro result' s₁ ⟨hlog₁, hothers, hfull₁⟩
    exact days_clear hraises hwrites days result' hdays hlog₁ hothers hfull₁

/-! ## The pass and the call -/

theorem daysNewestFirst_nodup (d : Db) (bankCode : String) (range : DateRange) :
    (d.daysNewestFirst bankCode range).Nodup :=
  (List.perm_insertionSort _ _).nodup_iff.mpr (List.nodup_dedup _)

/-- **No run twice.** A pass executes no run that exists when it begins. -/
theorem processBank_executesNew (hfresh : ∀ run ∈ s.committed.runs, run.id < s.supply) :
    ExecutesOnly (fun execute => call.processBank svc execute clock bankCode) execute
      (fun id => s.committed.run? id = none) s := by
  intro execute' hagree
  have hnew : ∀ id, s.supply ≤ id → s.committed.run? id = none := by
    intro id hid
    refine List.find?_eq_none.mpr fun run hrun heq => ?_
    have hlt := hfresh run hrun
    rw [of_decide_eq_true heq] at hlt
    exact absurd hlt (Nat.not_lt.mpr hid)
  refine exec_bind_congr (wp_tables.mpr (exec_bind_left ?_ _))
  refine exec_foldlM_congr (I := fun s' => s.supply ≤ s'.supply) (fun day _ result s₁ hs₁ => ?_) _
    (Nat.le_refl _)
  refine ⟨dayTurn_congr result day ((start_cases _ _ s₁).mono ?_ fun _ _ _ => trivial), ?_⟩
  · rintro out _ ⟨-, hout⟩ hcreated now
    rcases hout with ⟨hfound, -⟩ | ⟨-, hid, -⟩
    · exact absurd (hcreated.symm.trans hfound) (by decide)
    · exact hagree _ now (hnew _ (hs₁.trans hid))
  · exact (wp_supply _ s₁).mono (fun _ _ h => hs₁.trans h) fun _ _ _ => trivial

/-- A pass before whose first conflict no request creates a run leaves the store as it was, and
executes nothing. -/
theorem processBank_keeps (hlog : s.log = [])
    (hnone : ¬ call.Creating svc clock bankCode s.committed) :
    (call.processBank svc execute clock bankCode).wp (fun _ s' => s'.committed = s.committed)
        (fun _ s' => s'.committed = s.committed) s ∧
      ExecutesOnly (fun execute => call.processBank svc execute clock bankCode) execute
        (fun _ => False) s := by
  have hview := Session.view_of_log hlog
  have hnone' : ¬ CreatesFirst svc s.committed (call.requests clock bankCode s.view) :=
    hview.symm ▸ hnone
  have hdays := @days_keep call svc execute clock bankCode s.committed _
    (s.view.daysNewestFirst bankCode call.range) { bankCode := bankCode } s rfl hlog hnone'
  refine ⟨?_, fun execute' _ => ?_⟩
  · unfold processBank
    rw [bind_eq, wp_bind, wp_tables, bind_eq, wp_bind]
    refine hdays.2.mono ?_ fun _ _ h => h
    rintro result s₁ ⟨hc₁, hlog₁, hfull⟩
    have hview₁ := Session.view_of_log hlog₁
    unfold queue
    rw [wp_ite]
    split
    swap
    · exact hc₁
    rename_i hqueue
    rw [if_pos hqueue] at hfull
    rw [bind_eq, wp_bind]
    refine ((start_cases _ _ s₁).and ((start_work _ _).wp_frame s₁)).mono ?_ ?_
    · rintro out s₂ ⟨⟨hclear, hout⟩, -⟩
      rw [hview₁, hc₁] at hclear hout
      rcases hout with ⟨-, rfl⟩ | ⟨-, -, hcreates⟩
      · rw [bind_eq, wp_bind, wp_commitNow, wp_ite]
        split
        · exact hview₁.trans hc₁
        · exact hview₁.trans hc₁
      · exact absurd ⟨hclear, .inl hcreates⟩ hfull
    · exact fun _ _ h => h.2.1.trans hc₁
  · exact exec_bind_congr (wp_tables.mpr (exec_bind_left (hdays.1 execute') _))

/-- A pass that finds no conflict when it begins comes to none. -/
theorem processBank_clear
    (hraises : ∀ id now, (execute id now).Raises fun e => e ≠ ReconError.idempotencyConflict)
    (hwrites : ∀ id now, (execute id now).Writes RowWrite.InsertsNoRun) (hlog : s.log = [])
    (hclear : ¬ call.Conflicting clock bankCode s.committed) :
    (call.processBank svc execute clock bankCode).wp (fun _ _ => True)
      (fun e _ => e ≠ .idempotencyConflict) s := by
  have hview := Session.view_of_log hlog
  have hrequests : ∀ request ∈ call.requests clock bankCode s.view,
      ¬ request.1.Conflicts s.committed := by
    rw [hview]
    exact fun request hrequest hconflict => hclear ⟨request, hrequest, hconflict⟩
  unfold processBank
  rw [bind_eq, wp_bind, wp_tables, bind_eq, wp_bind]
  refine (days_clear hraises hwrites _ _ (daysNewestFirst_nodup _ _ _) hlog ?_ ?_).mono ?_
    fun _ _ h => h
  · intro day hday
    exact hrequests (_, clock.startedAt day)
      (List.mem_append_left _ (List.mem_map_of_mem hday))
  · intro hqueue
    refine hrequests (_, clock.queuedAt) (List.mem_append_right _ ?_)
    rw [if_pos hqueue]
    exact List.mem_singleton_self _
  · rintro result s₁ ⟨hlog₁, hfull⟩
    unfold queue
    rw [wp_ite]
    split
    swap
    · trivial
    rename_i hqueue
    rw [bind_eq, wp_bind]
    refine (start_cases _ _ s₁).mono ?_ ?_
    · intro out s₂ _
      rw [bind_eq, wp_bind, wp_commitNow, wp_ite]
      split <;> trivial
    · rintro e _ hconflict rfl
      exact hfull hqueue (Session.view_of_log hlog₁ ▸ hconflict.mp rfl)

end BacklogCall
/-- A session as a bank's pass finds it: no transaction is open, and new identifiers are new. -/
structure Opened (s : Session) : Prop where
  log : s.log = []
  fresh : ∀ run ∈ s.committed.runs, run.id < s.supply

/-- **A call that repeats another one.** No call executes a run that exists when it begins. A call
that ends in a conflict leaves every store as it was and executes nothing, provided that no bank of
a call with a conflict creates a run before its first one. -/
theorem backlogRun_repeats (svc : RunService) (work : RunWork) (hwork : work.NeverConflicts)
    (call : BacklogCall) (clocks : String → BacklogClock) (start : String → Session)
    (hopened : ∀ bank ∈ call.banks, Opened (start bank))
    (hnone : (∃ bank ∈ call.banks, call.Conflicting (clocks bank) bank (start bank).committed) →
      ∀ bank ∈ call.banks, ¬ call.Creating svc (clocks bank) bank (start bank).committed) :
    ((∃ out ∈ call.run svc (svc.execute work) clocks start, out.1 = .error .idempotencyConflict) →
      ∀ bank ∈ call.banks,
        ((call.processBank svc (svc.execute work) (clocks bank) bank).exec (start bank)).2.committed =
          (start bank).committed ∧
        ExecutesOnly (fun execute => call.processBank svc execute (clocks bank) bank)
          (svc.execute work) (fun _ => False) (start bank)) ∧
    ∀ bank ∈ call.banks,
      ExecutesOnly (fun execute => call.processBank svc execute (clocks bank) bank)
        (svc.execute work) (fun id => (start bank).committed.run? id = none) (start bank) := by
  refine ⟨?_, fun bank hbank => BacklogCall.processBank_executesNew (hopened bank hbank).fresh⟩
  rintro ⟨out, hout, herror⟩
  obtain ⟨failed, hfailed, rfl⟩ := List.mem_map.mp hout
  have hconflicting : call.Conflicting (clocks failed) failed (start failed).committed := by
    by_contra hclear
    have hpass : (call.processBank svc (svc.execute work) (clocks failed) failed).wp
        (fun _ _ => True) (fun e _ => e ≠ .idempotencyConflict) (start failed) :=
      BacklogCall.processBank_clear (execute_raises hwork) execute_writes
        (hopened failed hfailed).log hclear
    exact hpass.fails herror rfl
  intro bank hbank
  obtain ⟨hkept, hnothing⟩ := BacklogCall.processBank_keeps (hopened bank hbank).log
    (hnone ⟨failed, hfailed, hconflicting⟩ bank hbank)
  exact ⟨hkept.ends, hnothing⟩

/-! A call over one day, and two more with its batch key: one over another range with the same
unmatched day, and one over a range with a day that has no run yet. -/

def unmatchedOn (id : Id) (day : Date) : NormalisedTransaction where
  id := id
  rawTransactionId := id
  ingestionFileId := 1
  source := .internal
  bankCode := "AXIS"
  sourceLineNo := none
  txnDate := day
  settlementDate := none
  txnTimestampUtc := 0
  amountMinor := 100
  currency := "INR"
  direction := .dr
  isReversal := false
  counterpartyNameNormalised := none
  narration := none
  narrationNormalised := none
  originalReferenceText := none
  normalisedReference := none
  matchStatus := .unmatched
  voidedOriginalId := none

/-- One unmatched transaction on each of two days. -/
def afterOutage : Session where
  committed := { transactions := [unmatchedOn 1 739000, unmatchedOn 2 739001] }
  supply := 3

def outageCall (dateFrom dateTo : Date) : BacklogCall where
  batchKey := "outage"
  banks := ["AXIS"]
  requestedBy := "ops"
  range := { dateFrom := some dateFrom, dateTo := some dateTo }

/-- A clock that stands still during a call. -/
def stillClock (now : Instant) : BacklogClock := ⟨fun _ => now, fun _ => now, now⟩

def outagePass (call : BacklogCall) (now : Instant) : Prog BankBacklogResult :=
  call.processBank RunSystem.halfHourService (RunSystem.halfHourService.execute RunSystem.idleWork)
    (stillClock now) "AXIS"

/-- The session after the call over the first day. -/
def afterFirstDay : Session := ((outagePass (outageCall 739000 739000) 0).exec afterOutage).2

theorem idleWork_neverConflicts : RunSystem.idleWork.NeverConflicts :=
  ⟨fun _ => trivial, fun _ _ _ => trivial⟩

theorem afterFirstDay_opened : Opened afterFirstDay := by
  refine ⟨?_, by decide +kernel⟩
  have hlength : afterFirstDay.log.length = 0 := by decide +kernel
  exact List.eq_nil_of_length_eq_zero hlength

/-- The other range ends in a conflict, and repeats the run of the day. -/
theorem backlogRun_repeats_firstDay :
    (∃ out ∈ (outageCall 738999 739000).run RunSystem.halfHourService
      (RunSystem.halfHourService.execute RunSystem.idleWork) (fun _ => stillClock 1)
      (fun _ => afterFirstDay), out.1 = .error .idempotencyConflict) ∧
    ((outagePass (outageCall 738999 739000) 1).exec afterFirstDay).2.committed =
      afterFirstDay.committed := by
  have hconflict : ((outagePass (outageCall 738999 739000) 1).exec afterFirstDay).1 =
      .error .idempotencyConflict := by decide +kernel
  have hout : ∃ out ∈ (outageCall 738999 739000).run RunSystem.halfHourService
      (RunSystem.halfHourService.execute RunSystem.idleWork) (fun _ => stillClock 1)
      (fun _ => afterFirstDay), out.1 = .error .idempotencyConflict :=
    ⟨_, List.mem_singleton_self _, hconflict⟩
  have hrepeats := backlogRun_repeats RunSystem.halfHourService RunSystem.idleWork
    idleWork_neverConflicts (outageCall 738999 739000) (fun _ => stillClock 1)
    (fun _ => afterFirstDay) (fun _ _ => afterFirstDay_opened) fun _ => by decide +kernel
  exact ⟨hout, (hrepeats.1 hout "AXIS" (List.mem_singleton_self _)).1⟩

/-- Over both days, the run of the second day is created and executed before the conflict. -/
theorem widenedCall_creates :
    ¬ (((outagePass (outageCall 739000 739001) 1).exec afterFirstDay).1 =
        .error .idempotencyConflict →
      ((outagePass (outageCall 739000 739001) 1).exec afterFirstDay).2.committed.runs =
        afterFirstDay.committed.runs) := by
  decide +kernel

end Recon
