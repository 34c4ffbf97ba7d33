import ReconEngine.Runs.History
import ReconEngine.Store.Requests

/-!
# How runs end

A run ends COMPLETED or FAILED. Reaping and giving up end runs that are RUNNING or PENDING, a
request inserts its run under a new identifier, but the worker of a run writes its outcome without
looking whether the run has ended meanwhile. The worker of a run that its own session has started
does not even look before it begins: the session still has the row that it inserted.

The law is `runs_end_once`: **an outcome is final in every history in which every worker that comes
to its end finds its run RUNNING in the store.** `reaped_run_completes` is a history in which one
does not.

**What it does not establish.** Nothing here says how long a worker takes, so that the condition is
one on the history: a run that is never older than the window of `_reap_stale` while it is worked on
meets it. What a worker does to the transactions and exceptions before it ends is not looked at;
only that it is not committed.
-/

set_option autoImplicit false

namespace Recon

open Store (updateIn)
open Store.Prog hiding pure bind

/-! ## Ended runs -/

/-- The run is COMPLETED or FAILED. -/
def Db.Ended (d : Db) (id : Id) : Prop :=
  d.statusText id = "COMPLETED" ∨ d.statusText id = "FAILED"

/-- Runs have identifiers of their own, and those that had ended in `d₀` have not changed. -/
structure Lasting (d₀ : Db) (n : Nat) (d : Db) : Prop where
  ids : (d.runs.map (·.id)).Nodup
  below : ∀ run ∈ d.runs, run.id < n
  kept : ∀ id, d₀.Ended id → d.statusText id = d₀.statusText id

theorem lasting_grows (d₀ : Db) : Grows (S := schema) (Lasting d₀) :=
  fun _ _ _ hn h => { h with below := fun run hrun => Nat.lt_of_lt_of_le (h.below run hrun) hn }

namespace Lasting

variable {d₀ d d' : Db} {n : Nat}

/-- An outcome lasts while the runs stay. -/
theorem of_runs (h : Lasting d₀ n d) (hruns : d'.runs = d.runs) : Lasting d₀ n d' where
  ids := hruns ▸ h.ids
  below := hruns ▸ h.below
  kept id hended := by
    rw [← h.kept id hended]
    unfold Db.statusText Db.run?
    rw [hruns]

/-- What has not ended now had not ended before. -/
theorem not_ended (h : Lasting d₀ n d) {id : Id} (hopen : ¬ d.Ended id) : ¬ d₀.Ended id := by
  intro hended
  refine hopen ?_
  unfold Db.Ended
  rw [h.kept id hended]
  exact hended

/-- A run that has not ended may change. -/
theorem updated (h : Lasting d₀ n d) {id : Id} (columns : RunColumns)
    (hopen : ¬ d₀.Ended id) :
    Lasting d₀ n (RowWrite.apply (.updateRun id columns) d) where
  ids := by
    have hids : (updateIn (·.id) [id] columns.set d.runs).map (·.id) = d.runs.map (·.id) :=
      Store.map_updateIn fun _ => rfl
    exact hids.symm ▸ h.ids
  below run hrun := by
    obtain ⟨old, hold, rfl⟩ := Store.mem_updateIn.mp hrun
    have hid : (if old.id ∈ [id] then columns.set old else old).id = old.id := by
      split <;> rfl
    exact hid.symm ▸ h.below old hold
  kept id' hended := by
    have hne : id' ≠ id := fun heq => hopen (heq ▸ hended)
    rw [statusText_update, ← h.kept id' hended]
    unfold Db.statusText
    simp only [hne, if_false]

/-- A run with a new identifier is added. -/
theorem inserted (h : Lasting d₀ n d) {run : ReconciliationRun} (hid : run.id = n) :
    Lasting d₀ (n + 1) (RowWrite.apply (.insertRun run) d) where
  ids := by
    refine Store.nodup_append_of_fresh h.ids (List.nodup_singleton _) fun row hrow old hold => ?_
    rw [List.mem_singleton.mp hrow, hid]
    exact Nat.ne_of_lt (h.below old hold)
  below row hrow := by
    rcases List.mem_append.mp hrow with hrow | hrow
    · exact Nat.lt_succ_of_lt (h.below row hrow)
    · rw [List.mem_singleton.mp hrow, hid]
      exact Nat.lt_succ_self n
  kept id hended := by
    have hfree : d.run? run.id = none := by
      unfold Db.run?
      rw [List.find?_eq_none]
      intro row hrow
      have hlt := h.below row hrow
      rw [← hid] at hlt
      simpa using Nat.ne_of_lt hlt
    have hne : id ≠ run.id := by
      rintro rfl
      refine h.not_ended ?_ hended
      unfold Db.Ended Db.statusText
      rw [hfree]
      decide
    rw [statusText_insert hfree, if_neg hne]
    exact h.kept id hended

/-- The row of an identifier is the run that is found under it. -/
theorem statusText_of_mem (h : Lasting d₀ n d) {run : ReconciliationRun} (hrun : run ∈ d.runs) :
    d.statusText run.id = run.status.text := by
  refine Db.statusText_of_run? ?_
  cases hfind : d.run? run.id with
  | none => exact absurd (List.find?_eq_none.mp hfind run hrun) (by simp)
  | some first =>
    exact congrArg some (Store.eq_of_key_eq h.ids (List.mem_of_find?_eq_some hfind) hrun
      (Db.run?_id hfind))

end Lasting

/-! ## What each request does -/

section

variable {d₀ : Db} {svc : RunService} {s : Session}

theorem auditState_lasting (run : ReconciliationRun) (before after rationale : String)
    (at' : Instant) (metrics : Option RunMetrics) :
    (svc.auditState run before after rationale at' metrics).Keeps (Lasting d₀) := by
  refine Keeps.of_writes (lasting_grows d₀) ?_ (auditState_work _ _ _ _ _ _)
  rintro n _ d ⟨row, rfl⟩ hd
  exact hd.of_runs rfl

/-- Reaping ends RUNNING runs only. -/
theorem reapOne_lasting (bankCode : String) (now : Instant) (run : ReconciliationRun) :
    (svc.reapOne bankCode now run).Keeps (Lasting d₀) where
  work := (reapOne_work _ _ _).weaken fun _ _ => trivial
  kept s hs := by
    unfold RunService.reapOne
    simp only [bind_eq, wp_bind, wp_lockRow, wp_tables]
    split
    · rename_i hstale
      rw [wp_put, Store.Session.view_write]
      refine Lasting.updated hs _ (hs.not_ended ?_)
      obtain ⟨row, hrow, hid⟩ := List.mem_map.mp (List.contains_iff_mem.mp hstale)
      obtain ⟨hmem, hcond⟩ := List.mem_filter.mp hrow
      unfold Db.Ended
      rw [← hid, hs.statusText_of_mem hmem, (of_decide_eq_true hcond).2.1]
      decide
    · exact hs

/-- Reaping ends only runs that have not ended. -/
theorem reapStale_lasting (bankCode : String) (now : Instant) :
    (svc.reapStale bankCode now).Keeps (Lasting d₀) :=
  (Keeps.of_reads (lasting_grows d₀) work_tables).bind fun _ =>
    Keeps.foldlM (fun _ run => reapOne_lasting bankCode now run) _ _

theorem start_lasting (q : StartRequest) (now : Instant) :
    (svc.start q now).Keeps (Lasting d₀) where
  work := (start_work q now).weaken fun _ _ => trivial
  kept s hs := by
    unfold RunService.start
    simp only [bind_eq, wp_bind, wp_require, wp_tables]
    split
    swap
    · trivial
    split
    · rename_i existing _
      refine (replayRun_spec existing q s).mono ?_ fun _ _ _ => trivial
      rintro _ s' ⟨-, rfl⟩
      exact hs
    · rw [wp_bind]
      refine ((reapStale_lasting q.bankCode now).kept s hs).mono ?_ fun _ _ _ => trivial
      intro _ s₁ hs₁
      rw [wp_bind, wp_newId, wp_bind]
      refine Work.wp_attempt (Work.bind (insertRun_work _) fun _ => work_pure none) ?_
      rw [wp_bind]
      refine (insertRun_spec (q.run s₁.supply now) s₁.take).mono ?_ ?_
      · rintro _ s₂ rfl
        rw [wp_pure]
        dsimp only
        rw [wp_bind]
        have hinserted : Lasting d₀ (s₁.take.write (.insertRun (q.run s₁.supply now))).supply
            (s₁.take.write (.insertRun (q.run s₁.supply now))).view := by
          rw [Store.Session.view_write, Store.Session.view_take]
          exact hs₁.inserted rfl
        refine ((auditState_lasting (q.run s₁.supply now) "NONE" _ _ now none).kept _
          hinserted).mono ?_ fun _ _ _ => trivial
        exact fun _ _ h => h
      · rintro e s₂ rfl
        refine (startConflict_spec q e s₁.take).mono ?_ fun _ _ _ => trivial
        rintro _ s₃ ⟨⟨out, rfl, -⟩, rfl⟩
        exact lasting_grows d₀ _ _ _ (Nat.le_succ s₁.supply) hs₁

/-- A run that is activated was PENDING, and so had not ended. -/
theorem tryActivate_lasting (id : Id) (now : Instant) (hs : Lasting d₀ s.supply s.view) :
    (svc.tryActivate id now).wp (fun _ s' => Lasting d₀ s'.supply s'.view) (fun _ _ => True)
      s := by
  unfold RunService.tryActivate
  simp only [bind_eq, wp_bind, wp_lockRow, wp_tables]
  split
  · trivial
  rename_i run hrun
  obtain rfl := Db.run?_id hrun
  rw [wp_bind, wp_require]
  split
  swap
  · trivial
  rename_i hpending
  have hopen : ¬ d₀.Ended run.id := by
    refine hs.not_ended ?_
    unfold Db.Ended
    rw [Db.statusText_of_run? hrun, of_decide_eq_true hpending]
    decide
  rw [wp_bind]
  refine ((reapStale_lasting run.bankCode now).kept s hs).mono ?_ fun _ _ _ => trivial
  intro _ s₁ hs₁
  rw [wp_bind]
  refine Work.wp_attempt (W := fun _ => True) (Work.bind (takeSlot_work _) fun _ =>
    Work.bind (work_put.mpr trivial) fun _ => work_pure true) ?_
  rw [wp_bind]
  refine (takeSlot_spec run.bankCode s₁).mono ?_ ?_
  · rintro _ s₂ ⟨rfl, -⟩
    rw [wp_bind, wp_put, wp_pure, if_pos rfl, wp_bind]
    have hactive : Lasting d₀ (s₂.write (.updateRun run.id
        { status := some .running, startedAt := some now })).supply
        (s₂.write (.updateRun run.id
          { status := some .running, startedAt := some now })).view := by
      rw [Store.Session.view_write]
      exact hs₁.updated _ hopen
    exact ((auditState_lasting run "PENDING" "RUNNING" _ now none).kept _ hactive).mono
      (fun _ _ h => h) fun _ _ _ => trivial
  · rintro e s₂ ⟨rfl, -⟩
    cases e with
    | integrity name =>
      dsimp only
      rw [wp_ite]
      split
      · exact hs₁
      · trivial
    | _ => trivial

/-- Giving up a run that waits changes no outcome. -/
theorem failBusy_lasting (id : Id) (now : Instant) (hs : Lasting d₀ s.supply s.view) :
    (RunService.failBusy id now).wp (fun _ s' => Lasting d₀ s'.supply s'.view) (fun _ _ => False)
      s := by
  unfold RunService.failBusy
  rw [bind_eq, wp_bind, wp_tables]
  split
  · rename_i run hrun
    rw [wp_ite]
    split
    · rename_i hpending
      rw [bind_eq, wp_bind, wp_put, wp_commitNow, Store.Session.view_commit,
        Store.Session.view_write]
      refine hs.updated _ (hs.not_ended ?_)
      unfold Db.Ended
      rw [Db.statusText_of_run? hrun, hpending]
      decide
    · exact hs
  · exact hs

/-- A worker changes no outcome where its run has not ended. -/
theorem finish_lasting (id : Id) (held : Option HeldRun) (status : RunStatus)
    (metrics : Option RunMetrics) (errorSummary : Option String) (now : Instant)
    (hs : Lasting d₀ s.supply s.view) (hopen : ¬ s.view.Ended id) :
    (svc.finish id held status metrics errorSummary now).wp
      (fun _ s' => Lasting d₀ s'.supply s'.view) (fun _ _ => True) s := by
  unfold RunService.finish
  simp only [bind_eq, wp_bind, wp_tables]
  split
  · trivial
  · rename_i run hrun
    rw [wp_bind, wp_lockRow, wp_bind, wp_put]
    have hwritten : Lasting d₀ (s.write (.updateRun id
        (RunService.finishedColumns held status metrics errorSummary now))).supply
        (s.write (.updateRun id
          (RunService.finishedColumns held status metrics errorSummary now))).view := by
      rw [Store.Session.view_write]
      exact hs.updated _ (hs.not_ended hopen)
    exact ((auditState_lasting run _ _ _ now metrics).kept _ hwritten).mono (fun _ _ h => h)
      fun _ _ _ => trivial

/-- The first reading of a worker writes nothing. -/
theorem readRunning_lasting (id : Id) (cached : Option ReconciliationRun)
    (hs : Lasting d₀ s.supply s.view) :
    (RunService.readRunning id cached).wp (fun _ s' => Lasting d₀ s'.supply s'.view)
      (fun _ s' => s'.committed = s.committed ∧ s.supply ≤ s'.supply) s := by
  cases cached with
  | some run =>
    simp only [RunService.readRunning]
    rw [bind_eq, wp_bind, wp_require]
    split
    · exact hs
    · exact ⟨rfl, le_refl _⟩
  | none =>
    unfold RunService.readRunning
    simp only [bind_eq, wp_bind, wp_tablesMarking]
    split
    · exact ⟨rfl, le_refl _⟩
    · rw [wp_bind, wp_require]
      split
      · exact hs
      · exact ⟨rfl, le_refl _⟩

/-- A worker whose run has not ended ends it, or changes nothing. -/
theorem executeRead_lasting (work : RunWork) (held : HeldRun) (now : Instant)
    (hlog : s.log = []) (hs : Lasting d₀ s.supply s.view) (hopen : ¬ s.view.Ended held.id) :
    (svc.executeRead work held now).wp (fun _ s' => Lasting d₀ s'.supply s'.view)
      (fun _ s' => s'.committed = s.committed ∧ s.supply ≤ s'.supply) s := by
  refine executeRead_finishes svc work held now hlog ?_
  intro held' status metrics errorSummary s' _ hsame hsupply
  refine finish_lasting held.id held' status metrics errorSummary now
    (lasting_grows d₀ _ _ _ hsupply (hs.of_runs hsame.runs)) ?_
  unfold Db.Ended
  rw [hsame.statusText]
  exact hopen

end

/-! ## Histories -/

namespace RunSystem

variable {svc : RunService} {s : RunSystem}

/-- The worker that comes to its end finds its run RUNNING: the run was not reaped meanwhile. -/
def Attended (s : RunSystem) : RunOp → Prop
  | .finish id _ _ => (s.working.find? (·.id = id)).isSome = true → s.db.statusText id = "RUNNING"
  | _ => True

/-- Every worker of the history finds its run RUNNING at its end. -/
def AllAttended (svc : RunService) : RunSystem → List RunOp → Prop
  | _, [] => True
  | s, op :: ops => Attended s op ∧ AllAttended svc (s.step svc op) ops

/-- Runs have identifiers of their own, below the next one. -/
structure Identified (s : RunSystem) : Prop where
  ids : (s.db.runs.map (·.id)).Nodup
  below : ∀ run ∈ s.db.runs, run.id < s.supply

theorem Identified.lasting (h : s.Identified) : Lasting s.db s.supply s.db :=
  ⟨h.ids, h.below, fun _ _ => rfl⟩

/-- A request leaves ended runs as they are. -/
theorem lasting_request {α : Type} {p : Prog α} (h : s.Identified)
    (hp : p.wp (fun _ s' => Lasting s.db s'.supply s'.view)
      (fun _ s' => s'.committed = s.db ∧ s.supply ≤ s'.supply) s.session) :
    Lasting s.db (request p s.session).2.supply (request p s.session).2.committed := by
  rcases hp.request with ⟨_, s', hs', hrequest⟩ | ⟨_, s', ⟨hdb, hsupply⟩, hrequest⟩
  · rw [hrequest]
    exact hs'
  · rw [hrequest]
    show Lasting s.db s'.supply s'.committed
    rw [hdb]
    exact lasting_grows _ _ _ _ hsupply h.lasting

/-- One request, in a history whose workers find their runs RUNNING. -/
theorem step_lasting (h : s.Identified) (op : RunOp) (ho : s.Attended op) :
    Lasting s.db (s.step svc op).supply (s.step svc op).db := by
  have hstart : Lasting s.db s.session.supply s.session.view := h.lasting
  cases op with
  | start q now =>
    have hwork : (svc.start q now).Work (RowWrite.InsertsUnder q.idempotencyKey) :=
      start_work q now
    have hrequest := lasting_request h
      (hwork.wp_kept ((start_lasting q now).kept s.session hstart))
    simp only [RunSystem.step]
    split
    · rename_i out s' heq
      rw [heq] at hrequest
      split
      · exact hrequest
      · exact hrequest
    · rename_i e s' heq
      rw [heq] at hrequest
      exact hrequest
  | pickUp id now failedAt =>
    have hspec : (svc.startQueued id now failedAt).wp
        (fun _ s' => Lasting s.db s'.supply s'.view)
        (fun _ s' => s'.committed = s.db ∧ s.supply ≤ s'.supply) s.session := by
      unfold RunService.startQueued
      rw [bind_eq, wp_bind]
      refine ((tryActivate_work id now).wp_kept
        (tryActivate_lasting (s := s.session) id now hstart)).mono ?_ fun _ _ h => h
      intro activated s₁ hs₁
      rw [wp_ite]
      split
      · exact hs₁
      · rw [bind_eq, wp_bind]
        exact (failBusy_lasting id failedAt hs₁).mono (fun _ _ h => h) fun _ _ h => h.elim
    have hrequest := lasting_request h hspec
    simp only [RunSystem.step]
    split
    · rename_i s' heq
      rw [heq] at hrequest
      exact hrequest
    · rename_i r s' _ heq
      rw [heq] at hrequest
      exact hrequest
  | «begin» id =>
    simp only [RunSystem.step]
    cases hfind : s.launched.find? (·.id = id) with
    | none => exact h.lasting
    | some launch =>
      have hrequest := lasting_request h
        (readRunning_lasting (s := s.session) id launch.cached hstart)
      dsimp only
      split
      · rename_i held s' heq
        rw [heq] at hrequest
        exact hrequest
      · rename_i e s' heq
        rw [heq] at hrequest
        exact hrequest
  | finish id work now =>
    simp only [RunSystem.step]
    cases hfind : s.working.find? (·.id = id) with
    | none => exact h.lasting
    | some held =>
      have hid : held.id = id := by simpa using List.find?_some hfind
      have hrunning : s.db.statusText held.id = "RUNNING" := by
        rw [hid]
        exact ho (by rw [hfind]; rfl)
      have hopen : ¬ s.session.view.Ended held.id := by
        show ¬ (s.db.statusText held.id = _ ∨ s.db.statusText held.id = _)
        rw [hrunning]
        decide
      exact lasting_request h (executeRead_lasting (s := s.session) work held now rfl hstart hopen)

theorem Identified.step (h : s.Identified) (op : RunOp) (ho : s.Attended op) :
    (s.step svc op).Identified :=
  ⟨(step_lasting h op ho).ids, (step_lasting h op ho).below⟩

/-- What has ended stays as it is. -/
theorem run_lasting (h : s.Identified) (ops : List RunOp) (ho : AllAttended svc s ops) :
    (s.run svc ops).Identified ∧ ∀ id, s.db.Ended id →
      (s.run svc ops).db.statusText id = s.db.statusText id := by
  induction ops generalizing s with
  | nil => exact ⟨h, fun _ _ => rfl⟩
  | cons op ops ih =>
    have hstep : Lasting s.db (s.step svc op).supply (s.step svc op).db := step_lasting h op ho.1
    obtain ⟨hids, hkept⟩ := ih (h.step op ho.1) ho.2
    refine ⟨hids, fun id hended => ?_⟩
    have hsame := hstep.kept id hended
    have hended' : (s.step svc op).db.Ended id := by
      unfold Db.Ended
      rw [hsame]
      exact hended
    exact (hkept id hended').trans hsame

theorem run_append (svc : RunService) (s : RunSystem) (ops ops' : List RunOp) :
    s.run svc (ops ++ ops') = (s.run svc ops).run svc ops' :=
  List.foldl_append

/-- A condition on a history is one on its parts. -/
theorem AllAttended.append {ops ops' : List RunOp} (h : AllAttended svc s (ops ++ ops')) :
    AllAttended svc s ops ∧ AllAttended svc (s.run svc ops) ops' := by
  induction ops generalizing s with
  | nil => exact ⟨trivial, h⟩
  | cons op ops ih =>
    obtain ⟨hops, hrest⟩ := ih h.2
    exact ⟨⟨h.1, hops⟩, hrest⟩

/-- The life cycle of the runs over a history: a run that has ended keeps its status, and no worker
of it commits anything. -/
structure EndsOnce (svc : RunService) (s : RunSystem) (before after : List RunOp) : Prop where
  status : ∀ id, (s.run svc before).db.Ended id →
    (s.run svc (before ++ after)).db.statusText id = (s.run svc before).db.statusText id
  work : ∀ id, (s.run svc before).db.Ended id → ∀ earlier work now later,
    after = earlier ++ .finish id work now :: later →
      (s.run svc (before ++ earlier)).step svc (.finish id work now) =
        s.run svc (before ++ earlier)

/-- **How runs end.** In every history of runs in which no worker comes to its end after its run was
reaped, a run that is COMPLETED or FAILED stays so, and its work is not committed any more. -/
theorem runs_end_once (svc : RunService) (s : RunSystem) (hs : s.Identified)
    (before after : List RunOp) (ho : AllAttended svc s (before ++ after)) :
    EndsOnce svc s before after := by
  obtain ⟨hbefore, hafter⟩ := ho.append
  obtain ⟨hids, -⟩ := run_lasting hs before hbefore
  constructor
  · intro id hended
    rw [run_append]
    exact (run_lasting hids after hafter).2 id hended
  · rintro id hended earlier work now later rfl
    obtain ⟨hearlier, hlater⟩ := hafter.append
    have hstatus := (run_lasting hids earlier hearlier).2 id hended
    rw [run_append]
    simp only [RunSystem.step]
    cases hfind : (((s.run svc before).run svc earlier).working.find? (·.id = id)) with
    | none => rfl
    | some held =>
      -- A worker would find its run RUNNING.
      have hrunning := hlater.1 (by rw [hfind]; rfl)
      rw [hstatus] at hrunning
      unfold Db.Ended at hended
      rw [hrunning] at hended
      exact absurd hended (by decide)

theorem noRuns_identified : noRuns.Identified :=
  ⟨List.nodup_nil, fun _ h => absurd h List.not_mem_nil⟩

/-- A worker whose run is reaped by the next request for the bank. -/
def reapedAtWork : List RunOp :=
  [.start (dailyRequest "monday") 0, .begin 1, .start (dailyRequest "tuesday") 1800000001]

theorem reaped_run_completes : ¬ ∀ (svc : RunService) (s : RunSystem), s.Identified →
    ∀ before after, EndsOnce svc s before after := by
  intro h
  have hends := h halfHourService noRuns noRuns_identified reapedAtWork [.finish 1 idleWork 1800000002]
  have hfailed : (noRuns.run halfHourService reapedAtWork).db.statusText 1 = "FAILED" := by
    decide +kernel
  have hcompleted : (noRuns.run halfHourService
      (reapedAtWork ++ [.finish 1 idleWork 1800000002])).db.statusText 1 = "COMPLETED" := by
    decide +kernel
  have hsame := hends.status 1 (Or.inr hfailed)
  rw [hfailed, hcompleted] at hsame
  revert hsame
  decide

/-- The run is reaped before its worker begins, and the worker begins with the row it has. -/
example : (noRuns.run halfHourService [.start (dailyRequest "monday") 0,
    .start (dailyRequest "tuesday") 1800000001, .begin 1,
    .finish 1 idleWork 1800000002]).db.statusText 1 = "COMPLETED" := by decide +kernel

theorem runs_end_once_day : EndsOnce halfHourService noRuns orderlyDay reapedAtWork :=
  runs_end_once halfHourService noRuns noRuns_identified orderlyDay reapedAtWork
    ⟨trivial, trivial, trivial, fun _ => by decide +kernel, trivial, trivial, trivial, trivial⟩

end RunSystem

end Recon
