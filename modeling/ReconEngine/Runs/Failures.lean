import ReconEngine.Runs.History

/-!
# Runs that fail

`execute` guards the middle of its work: an error there rolls everything back and leaves a FAILED
run with its entry. What it does before, reading the settings, and what it does after, the metrics
and the alerts, is not guarded. An error there leaves the run RUNNING. So a run fails as a whole
exactly where no error comes from outside the guarded region.

**The law** (`failed_run_undone`): for every work and every state, the execution of a RUNNING run is
`Concluded` if and only if its work is `Guarded`: the run ends COMPLETED, or FAILED with nothing but
its row and its entry changed.

**What it does not establish.** Who notices a run that stays RUNNING: the next start of the bank
reaps it once it is old enough (`Runs.Service`), and the history of that is in `Runs.Endings`.
-/

set_option autoImplicit false

namespace Recon

open Store.Prog hiding pure bind

/-! ## The entry of an outcome -/

/-- Metrics can be written to the trail. -/
theorem RunMetrics.value_accepted (m : RunMetrics) : m.value.Accepted := by
  have hday : ∀ n : Option Int, ((n.map PyValue.int).getD .none).Accepted := by
    intro n
    cases n with
    | none => simp
    | some n => simp
  refine PyValue.accepted_dict fun entry hentry => ?_
  simp only [List.mem_append, List.mem_map, List.mem_cons, List.not_mem_nil, or_false,
    Option.mem_toList, Option.map_eq_some_iff] at hentry
  rcases hentry with ((⟨count, -, rfl⟩ | rfl | rfl | rfl) | ⟨config, -, rfl⟩) | rfl
  · simp
  · simp
  · exact ⟨⟨_, rfl⟩, hday _⟩
  · exact ⟨⟨_, rfl⟩, hday _⟩
  · exact ⟨⟨_, rfl⟩, PyValue.accepted_dict (by simp)⟩
  · simp

/-- The entry of a transition can be hashed, so writing it does not fail. -/
theorem runStateChange_accepted (run : ReconciliationRun) (before after rationale : String)
    (at' : Instant) (metrics : Option RunMetrics) :
    (runStateChange run before after rationale at' metrics).Accepted where
  actor := by
    unfold runStateChange
    split
    · exact Or.inr rfl
    · exact Or.inl rfl
  aware := rfl
  affected := PyValue.accepted_dict (by simp)
  before := PyValue.accepted_dict (by simp)
  after := by
    refine PyValue.accepted_dict fun entry hentry => ?_
    simp only [List.mem_append, List.mem_cons, List.not_mem_nil, or_false, Option.mem_toList,
      Option.map_eq_some_iff] at hentry
    rcases hentry with (rfl | rfl) | ⟨m, -, rfl⟩
    · simp
    · simp
    · exact ⟨⟨_, rfl⟩, m.value_accepted⟩

/-! ## The outcome of an execution -/

/-- The run is FAILED, and nothing else than its row and the entry of that differs from before. -/
structure FailedWhole (d d' : Db) (id : Id) : Prop where
  status : d'.statusText id = "FAILED"
  rest : ∃ columns row, row.chainId = runsChain ∧
    d' = (RowWrite.insertAudit row).apply ((RowWrite.updateRun id columns).apply d)

/-- The run has been completed, or it has failed as a whole. -/
def Db.Concluded (d d' : Db) (id : Id) : Prop :=
  d'.statusText id = "COMPLETED" ∨ FailedWhole d d' id

/-- Nothing outside the guarded region raises an error: not what comes before it, and not what comes
after it where the region itself raises none. -/
def RunWork.Guarded (work : RunWork) (run : ReconciliationRun) (s : Session) : Prop :=
  (work.prepare run).wp
    (fun prepared s₁ => (work.settle run prepared).wp
      (fun settled s₂ => (work.measure run prepared settled).wp (fun _ _ => True)
        (fun _ _ => False) s₂)
      (fun _ _ => True) s₁)
    (fun _ _ => False) s

section

variable {svc : RunService} {s : Session}

/-- Writing an outcome cannot fail. -/
theorem finish_written (id : Id) (held : Option HeldRun) (status : RunStatus)
    (metrics : Option RunMetrics) (errorSummary : Option String) (now : Instant)
    {run : ReconciliationRun} (hrun : s.view.run? id = some run) :
    (svc.finish id held status metrics errorSummary now).wp
      (fun _ s' => s'.view.statusText id = status.text ∧ ∃ columns row, row.chainId = runsChain ∧
        s'.view = (RowWrite.insertAudit row).apply ((RowWrite.updateRun id columns).apply s.view))
      (fun _ _ => False) s := by
  obtain rfl := Db.run?_id hrun
  unfold RunService.finish RunService.auditState
  rw [bind_eq, wp_bind, wp_tables, hrun]
  simp only [bind_eq, wp_bind, wp_lockRow, wp_put]
  refine (svc.logger.append_accepted (runStateChange_accepted run _ _ _ _ _) _).mono ?_
    fun _ _ h => h
  rintro row s' ⟨hchain, rfl⟩
  have hview : ((s.write (.updateRun run.id
      (RunService.finishedColumns held status metrics errorSummary now))).take.write
        (.insertAudit row)).view = (RowWrite.insertAudit row).apply ((RowWrite.updateRun run.id
          (RunService.finishedColumns held status metrics errorSummary now)).apply s.view) := by
    rw [Store.Session.view_write, Store.Session.view_take, Store.Session.view_write]
  refine ⟨?_, _, row, hchain, hview⟩
  rw [hview]
  exact (statusText_set hrun rfl run.id).trans (if_pos rfl)

/-- A program that does not end as it should ends otherwise. -/
theorem wp_of_not {α : Type} {p : Prog α} {Q : α → Session → Prop}
    {E : ReconError → Session → Prop} (h : ¬ p.wp Q E s) :
    p.wp (fun a s' => ¬ Q a s') (fun e s' => ¬ E e s') s := by
  revert h
  unfold wp
  rcases p.exec s with ⟨result, s'⟩
  cases result with
  | ok a => exact fun h => h
  | error e => exact fun h => h

/-- With no error outside the guarded region the run is concluded. -/
theorem executeRead_concluded (work : RunWork) {held : HeldRun} (now : Instant)
    (hlog : s.log = []) (hrun : s.view.run? held.id = some held.run)
    (hguarded : work.Guarded held.run s) :
    (svc.executeRead work held now).wp (fun _ s' => s.view.Concluded s'.view held.id)
      (fun _ _ => False) s := by
  unfold RunService.executeRead
  rw [bind_eq, wp_bind]
  refine (hguarded.and (leavesRuns_wp (work.prepare_work held.run) s)).mono ?_ fun _ _ h => h.1
  rintro prepared s₁ ⟨hsettle, hc₁, hs₁, hsame₁⟩
  rw [bind_eq, wp_bind]
  refine Work.wp_attempt (Work.bind (work.settle_work held.run prepared) fun _ => work_pure _) ?_
  rw [wp_bind]
  refine (hsettle.and (leavesRuns_wp (work.settle_work held.run prepared) s₁)).mono ?_ ?_
  · rintro settled s₂ ⟨hmeasure, hc₂, hs₂, hsame₂⟩
    rw [wp_pure]
    dsimp only
    rw [bind_eq, wp_bind]
    refine (hmeasure.and (leavesRuns_wp (work.measure_work held.run prepared settled) s₂)).mono ?_
      fun _ _ h => h.1
    rintro metrics s₃ ⟨-, hc₃, hs₃, hsame₃⟩
    have hruns := ((hsame₁.trans hsame₂).trans hsame₃).runs
    have hrun₃ : s₃.view.run? held.id = some held.run := by
      unfold Db.run? at hrun ⊢
      rw [hruns]
      exact hrun
    exact (finish_written held.id (some held) .completed (some metrics) none now hrun₃).mono
      (fun _ _ h => Or.inl h.1) fun _ _ h => h
  · rintro e s₂ ⟨-, hc₂, hs₂⟩
    -- The handler rolls back to what was committed when the worker began.
    rw [bind_eq, wp_bind, wp_rollbackNow, bind_eq, wp_bind]
    have hback : (({ s₂ with log := s₁.log } : Session).close).view = s.view := by
      show s₂.committed = schema.replay s.log s.committed
      rw [hlog, hc₂, hc₁]
      rfl
    refine (finish_written held.id none .failed none (some e.typeName) now (hback.symm ▸ hrun)).mono
      ?_ fun _ _ h => h
    rintro _ s₃ ⟨hstatus, columns, row, hchain, hview⟩
    rw [hback] at hview
    exact Or.inr ⟨hstatus, columns, row, hchain, hview⟩

/-- An error from outside the guarded region ends the execution. -/
theorem executeRead_unguarded (work : RunWork) {held : HeldRun} (now : Instant)
    (h : ¬ work.Guarded held.run s) :
    (svc.executeRead work held now).wp (fun _ _ => False)
      (fun _ s' => s'.committed = s.committed) s := by
  unfold RunService.executeRead
  rw [bind_eq, wp_bind]
  refine ((wp_of_not h).and (leavesRuns_wp (work.prepare_work held.run) s)).mono ?_ fun _ _ h => h.2.1
  rintro prepared s₁ ⟨hsettle, hc₁, hs₁, hsame₁⟩
  rw [bind_eq, wp_bind]
  refine Work.wp_attempt (Work.bind (work.settle_work held.run prepared) fun _ => work_pure _) ?_
  rw [wp_bind]
  refine ((wp_of_not hsettle).and (leavesRuns_wp (work.settle_work held.run prepared) s₁)).mono ?_
    fun _ _ h => absurd trivial h.1
  rintro settled s₂ ⟨hmeasure, hc₂, hs₂, hsame₂⟩
  rw [wp_pure]
  dsimp only
  rw [bind_eq, wp_bind]
  refine ((wp_of_not hmeasure).and (leavesRuns_wp (work.measure_work held.run prepared settled) s₂)).mono
    (fun _ _ h => absurd trivial h.1) ?_
  rintro e s₃ ⟨-, hc₃, -⟩
  exact hc₃.trans (hc₂.trans hc₁)

/-- A worker that has read its run goes on with it. -/
theorem execute_read (work : RunWork) {run : ReconciliationRun} (now : Instant)
    (hrun : s.view.run? run.id = some run) (hrunning : run.status = .running)
    {Q : Unit → Session → Prop} {E : ReconError → Session → Prop} :
    (svc.execute work run.id now).wp Q E s ↔ (svc.executeRead work ⟨run, false⟩ now).wp Q E s := by
  unfold RunService.execute RunService.readRunning
  simp only [bind_eq, wp_bind, wp_tablesMarking, hrun, wp_require, hrunning, decide_true, if_true]
  exact Iff.rfl

end

/-- **How runs fail.** The execution of a RUNNING run, in a transaction of its own, ends with the
run COMPLETED, or FAILED and nothing else changed but its entry, exactly where no error is raised
outside the guarded region. -/
theorem failed_run_undone (svc : RunService) (work : RunWork) (now : Instant) (s : Session)
    (hlog : s.log = []) (run : ReconciliationRun) (hrun : s.committed.run? run.id = some run)
    (hrunning : run.status = .running) :
    s.committed.Concluded (request (svc.execute work run.id now) s).2.committed run.id ↔
      work.Guarded run s := by
  have hview : s.view = s.committed := by
    unfold Store.Session.view
    rw [hlog]
    rfl
  have hread : s.view.run? run.id = some run := hview ▸ hrun
  by_cases hguarded : work.Guarded run s
  · refine iff_of_true ?_ hguarded
    have hspec : (svc.execute work run.id now).wp
        (fun _ s' => s.view.Concluded s'.view run.id) (fun _ _ => False) s :=
      (execute_read work now hread hrunning).mpr
        (executeRead_concluded work now hlog hread hguarded)
    rcases hspec.request with ⟨_, s', hs', hrequest⟩ | ⟨_, _, hfalse, -⟩
    · rw [hrequest, ← hview]
      exact hs'
    · exact hfalse.elim
  · refine iff_of_false ?_ hguarded
    have hspec : (svc.execute work run.id now).wp
        (fun _ _ => False) (fun _ s' => s'.committed = s.committed) s :=
      (execute_read work now hread hrunning).mpr (executeRead_unguarded work now hguarded)
    rcases hspec.request with ⟨_, _, hfalse, -⟩ | ⟨_, s', hs', hrequest⟩
    · exact hfalse.elim
    · have hsame : (request (svc.execute work run.id now) s).2.committed = s.committed := by
        rw [hrequest]
        exact hs'
      -- The run is still RUNNING.
      have hstatus : s.committed.statusText run.id = "RUNNING" := by
        rw [Db.statusText_of_run? hrun, hrunning]
        rfl
      rw [hsame]
      rintro (hcompleted | hundone)
      · rw [hstatus] at hcompleted
        exact absurd hcompleted (by decide)
      · have hfailed := hundone.status
        rw [hstatus] at hfailed
        exact absurd hfailed (by decide)

/-! A run of the day, whose alerts hit a database error. -/

def unmeasuredWork : RunWork where
  Prepared := Unit
  Settled := Unit
  prepare _ := return
  settle _ _ := return
  measure _ _ _ := Store.Prog.fail (.environment "OperationalError")
  prepare_work _ := work_pure _
  settle_work _ _ := work_pure _
  measure_work _ _ _ := work_fail _

def dailyRun : ReconciliationRun := (RunSystem.dailyRequest "monday").run 1 0

/-- A worker about to begin with the run. -/
def dailyWorker : Session where
  committed := { runs := [dailyRun] }
  supply := 2

theorem unmeasured_run_stuck : ¬ ∀ (svc : RunService) (work : RunWork) (now : Instant) (s : Session),
    s.log = [] → ∀ run : ReconciliationRun, s.committed.run? run.id = some run →
      run.status = .running →
        s.committed.Concluded (request (svc.execute work run.id now) s).2.committed run.id := by
  intro h
  have hconcluded := h RunSystem.halfHourService unmeasuredWork 1 dailyWorker rfl dailyRun
    (by decide) rfl
  have hstatus : (request (RunSystem.halfHourService.execute unmeasuredWork dailyRun.id 1)
      dailyWorker).2.committed.statusText dailyRun.id = "RUNNING" := by decide +kernel
  rcases hconcluded with hcompleted | hundone
  · rw [hstatus] at hcompleted
    exact absurd hcompleted (by decide)
  · have hfailed := hundone.status
    rw [hstatus] at hfailed
    exact absurd hfailed (by decide)

theorem failed_run_undone_daily :
    dailyWorker.committed.Concluded
        (request (RunSystem.halfHourService.execute RunSystem.idleWork dailyRun.id 1)
          dailyWorker).2.committed dailyRun.id ↔
      RunSystem.idleWork.Guarded dailyRun dailyWorker :=
  failed_run_undone RunSystem.halfHourService RunSystem.idleWork 1 dailyWorker rfl dailyRun
    (by decide) rfl

end Recon
