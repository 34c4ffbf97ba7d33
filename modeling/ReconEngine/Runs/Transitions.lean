import ReconEngine.Runs.Service

/-!
# The transitions of a run

Every transition of a run should leave a RUN_STATE_CHANGE entry on the chain of the runs, with the
status before and after. `Transition` says that of two stores: the status of one run changes, and
its entry is appended. Starting, activating and finishing a run are such transitions; the requests
that give up a run unrecorded are excluded by their specifications' hypotheses.

**The laws** (`start_spec`, `tryActivate_spec`, `finish_spec`): each request that changes a status
is one transition, or leaves the runs alone.

**What they do not establish.** Anything about a request that gives a run up unrecorded.
`Runs.History` counts those out of its condition, and shows with one of them that it must.
-/

set_option autoImplicit false

namespace Recon

open Store HashChain
open Store.Prog hiding pure bind

/-! ## Reading the entries -/

def PyValue.item (key : String) : PyValue → PyValue
  | .dict entries => ((entries.find? fun entry => entry.1 = .str key).map (·.2)).getD .none
  | _ => .none

def PyValue.text : PyValue → String
  | .str s => s
  | _ => ""

/-- The statuses before and after, if the entry is about the run. -/
def AuditLog.transition (id : Id) (row : AuditLog) : Option (String × String) :=
  if row.actionType = "RUN_STATE_CHANGE" ∧ (row.affectedRecords.item "run_id").text = idText id then
    some ((row.beforeState.item "status").text, (row.afterState.item "status").text)
  else none

namespace Db

/-- The RUN_STATE_CHANGE entries of a run, in order. -/
def transitions (d : Db) (id : Id) : List (String × String) :=
  (d.chain runsChain).filterMap (AuditLog.transition id)

/-- The status of a run, NONE before it exists. -/
def statusText (d : Db) (id : Id) : String :=
  match d.run? id with
  | some run => run.status.text
  | none => "NONE"

end Db

/-- Each step starts where the one before it ended, from the first status to the last. -/
def Replays : String → List (String × String) → String → Prop
  | status, [], last => status = last
  | status, (before, after) :: rest, last => before = status ∧ Replays after rest last

instance decidableReplays : ∀ status steps last, Decidable (Replays status steps last)
  | status, [], last => inferInstanceAs (Decidable (status = last))
  | status, (before, after) :: rest, last =>
    have := decidableReplays after rest last
    inferInstanceAs (Decidable (before = status ∧ Replays after rest last))

/-- The entries of every run lead from NONE to its status. -/
def Reproduced (d : Db) : Prop :=
  ∀ id run, d.run? id = some run → Replays "NONE" (d.transitions id) run.status.text

/-- A history of statuses goes on with the next transition. -/
theorem Replays.concat {first last next : String} {steps : List (String × String)}
    (h : Replays first steps last) : Replays first (steps ++ [(last, next)]) next := by
  induction steps generalizing first with
  | nil => exact ⟨h.symm, rfl⟩
  | cons step steps ih => exact ⟨h.1, ih h.2⟩

/-! ## What the writes do to the runs -/

/-- The two stores agree on the runs and on their chain. -/
structure SameRuns (d d' : Db) : Prop where
  runs : d'.runs = d.runs
  chain : d'.chain runsChain = d.chain runsChain

theorem SameRuns.refl (d : Db) : SameRuns d d := ⟨rfl, rfl⟩

theorem SameRuns.trans {d d' d'' : Db} (h : SameRuns d d') (h' : SameRuns d' d'') :
    SameRuns d d'' :=
  ⟨h'.runs.trans h.runs, h'.chain.trans h.chain⟩

/-- Where the runs are the same, so are their statuses. -/
theorem SameRuns.statusText {d d' : Db} (h : SameRuns d d') (id : Id) :
    d'.statusText id = d.statusText id := by
  unfold Db.statusText Db.run?
  rw [h.runs]

theorem SameRuns.transitions {d d' : Db} (h : SameRuns d d') (id : Id) :
    d'.transitions id = d.transitions id := by
  unfold Db.transitions
  rw [h.chain]

/-- Writes to other tables leave the runs and their chain. -/
theorem sameRuns_apply {w : RowWrite} (h : w.LeavesRuns) (d : Db) : SameRuns d (w.apply d) := by
  refine ⟨?_, ?_⟩
  · cases w with
    | insertRun run => exact h.elim
    | updateRun id columns => exact h.elim
    | _ => rfl
  · refine (SameChain.chain (sameChain_apply ?_ d)).symm
    rintro row rfl
    exact h

theorem sameRuns_replay {log : List RowWrite} (h : ∀ w ∈ log, w.LeavesRuns) (d : Db) :
    SameRuns d (schema.replay log d) := by
  induction log generalizing d with
  | nil => exact SameRuns.refl d
  | cons w log ih =>
    have hw := sameRuns_apply (h w List.mem_cons_self) d
    exact hw.trans (ih (fun w' hw' => h w' (List.mem_cons_of_mem w hw')) (w.apply d))

/-- An update changes the status of its run alone. -/
theorem statusText_update (d : Db) (id : Id) (columns : RunColumns) (id' : Id) :
    (RowWrite.apply (.updateRun id columns) d).statusText id' =
      match d.run? id' with
      | some run => if id' = id then (columns.set run).status.text else run.status.text
      | none => "NONE" := by
  have hkey : ∀ run : ReconciliationRun, (columns.set run).id = run.id := fun _ => rfl
  have hfind := find_updateIn hkey [id] d.runs id'
  unfold Db.statusText
  show (match List.find? _ (updateIn (·.id) [id] columns.set d.runs) with
    | some run => _
    | none => _) = _
  rw [hfind]
  show _ = match List.find? _ d.runs with
    | some run => _
    | none => _
  cases hrun : d.runs.find? fun run => decide (run.id = id') with
  | none => rfl
  | some run =>
    have hid : run.id = id' := by simpa using List.find?_some hrun
    simp only [Option.map_some, List.mem_singleton, hid]
    split <;> rfl

/-- An inserted run changes the status of its own identifier, if that was free. -/
theorem statusText_insert {d : Db} {run : ReconciliationRun} (hfree : d.run? run.id = none)
    (id : Id) :
    (RowWrite.apply (.insertRun run) d).statusText id =
      if id = run.id then run.status.text else d.statusText id := by
  unfold Db.statusText Db.run?
  show (match List.find? _ (d.runs ++ [run]) with
    | some run => _
    | none => _) = _
  rw [List.find?_append]
  by_cases hid : id = run.id
  · subst hid
    rw [show List.find? _ d.runs = none from hfree]
    simp
  · have hne : ¬ run.id = id := fun h => hid h.symm
    simp [hid, hne]

/-! ## One transition -/

/-- The status of one run changes, and the entry of the change is appended. -/
structure Transition (sha256 : Sha256) (d d' : Db) (id : Id) (after : RunStatus) : Prop where
  chained : WellChained sha256 (d'.chain runsChain)
  status : d'.statusText id = after.text
  recorded : d'.transitions id = d.transitions id ++ [(d.statusText id, after.text)]
  others : ∀ id', id' ≠ id →
    d'.transitions id' = d.transitions id' ∧ d'.statusText id' = d.statusText id'

/-- An entry of a transition is read back as that transition. -/
theorem transition_runStateChange (run : ReconciliationRun) (before after rationale : String)
    (at' : Instant) (metrics : Option RunMetrics) (eventId : Id) (head : Option AuditLog)
    (hash : String) (id : Id) :
    (((runStateChange run before after rationale at' metrics).entry eventId head).row
      hash).transition id = if run.id = id then some (before, after) else none := by
  have hid : idText run.id = idText id ↔ run.id = id := ⟨idText_inj, fun h => by rw [h]⟩
  simp [AuditLog.transition, runStateChange, AuditEvent.entry, AuditEntryFields.row, PyValue.item,
    PyValue.text, hid]

variable {svc : RunService}

/-- `auditState` appends one entry about the run. -/
theorem auditState_spec (run : ReconciliationRun) (before after rationale : String)
    (at' : Instant) (metrics : Option RunMetrics) {s : Session}
    (hwell : WellChained svc.logger.sha256 (s.view.chain runsChain)) :
    (svc.auditState run before after rationale at' metrics).wp
      (fun _ s' => s.supply ≤ s'.supply ∧ s'.view.runs = s.view.runs ∧
        WellChained svc.logger.sha256 (s'.view.chain runsChain) ∧
        ∀ id, s'.view.transitions id =
          s.view.transitions id ++ if run.id = id then [(before, after)] else [])
      (fun _ _ => True) s := by
  unfold RunService.auditState
  rw [bind_eq, wp_bind]
  refine (svc.logger.append_spec _ s).mono ?_ fun _ _ _ => trivial
  rintro row s' ⟨haware, hhash, hrow, hs'⟩
  obtain ⟨hchain, hwell'⟩ := entry_chained
    (e := runStateChange run before after rationale at' metrics) hwell haware hhash
  rw [← hrow] at hchain hwell'
  have hview : s'.view = RowWrite.apply (.insertAudit row) s.view := by
    rw [hs', Session.view_write, Session.view_take]
  have hchain' : s'.view.chain runsChain = s.view.chain runsChain ++ [row] := hview ▸ hchain
  refine ⟨?_, by rw [hview]; rfl, hchain' ▸ hwell', fun id => ?_⟩
  · rw [hs']
    exact Nat.le_succ s.supply
  · unfold Db.transitions
    rw [hchain', List.filterMap_append]
    congr 1
    rw [List.filterMap_cons, List.filterMap_nil, hrow, transition_runStateChange]
    by_cases hid : run.id = id
    · rw [if_pos hid, if_pos hid]
    · rw [if_neg hid, if_neg hid]

/-- A new status, written and then recorded, is a transition. -/
theorem Transition.of_written {sha256 : Sha256} {d d' d'' : Db} {run : ReconciliationRun}
    {status : RunStatus} (hwritten : ∀ id, d'.statusText id =
      if id = run.id then status.text else d.statusText id)
    (hchain : d'.chain runsChain = d.chain runsChain) (hruns : d''.runs = d'.runs)
    (hwell : WellChained sha256 (d''.chain runsChain))
    (hentry : ∀ id, d''.transitions id =
      d'.transitions id ++ if run.id = id then [(d.statusText run.id, status.text)] else []) :
    Transition sha256 d d'' run.id status := by
  have hstatus : ∀ id, d''.statusText id = d'.statusText id := by
    intro id
    unfold Db.statusText Db.run?
    rw [hruns]
  have hsame : ∀ id, d'.transitions id = d.transitions id := by
    intro id
    unfold Db.transitions
    rw [hchain]
  refine ⟨hwell, ?_, ?_, fun id hne => ⟨?_, ?_⟩⟩
  · rw [hstatus, hwritten, if_pos rfl]
  · rw [hentry, hsame, if_pos rfl]
  · rw [hentry, hsame, if_neg (Ne.symm hne), List.append_nil]
  · rw [hstatus, hwritten, if_neg hne]

theorem Db.run?_id {d : Db} {id : Id} {run : ReconciliationRun} (h : d.run? id = some run) :
    run.id = id := by
  simpa using List.find?_some h

theorem Db.statusText_of_run? {d : Db} {id : Id} {run : ReconciliationRun}
    (h : d.run? id = some run) : d.statusText id = run.status.text := by
  unfold Db.statusText
  rw [h]

/-- Writing a status for an existing run. -/
theorem statusText_set {d : Db} {run : ReconciliationRun} {columns : RunColumns}
    {status : RunStatus} (hrun : d.run? run.id = some run) (hset : columns.status = some status)
    (id : Id) : (RowWrite.apply (.updateRun run.id columns) d).statusText id =
      if id = run.id then status.text else d.statusText id := by
  rw [statusText_update]
  by_cases hid : id = run.id
  · subst hid
    rw [hrun]
    simp [RunColumns.set, hset]
  · unfold Db.statusText
    simp only [hid, if_false]

/-- No status has the text that stands for no run. -/
theorem statusText_ne_none (status : RunStatus) : status.text ≠ "NONE" := by
  cases status <;> decide

theorem Db.run?_eq_none {d : Db} {id : Id} (h : d.statusText id = "NONE") : d.run? id = none := by
  cases hrun : d.run? id with
  | none => rfl
  | some run => exact absurd ((statusText_of_run? hrun).symm.trans h) (statusText_ne_none _)

/-! ## What each request does -/

/-- A run that the write inserts has the key. -/
def RowWrite.InsertsUnder (key : String) (w : RowWrite) : Prop :=
  ∀ run, w = .insertRun run → run.idempotencyKey = key

/-- The write inserts no run. -/
def RowWrite.InsertsNoRun (w : RowWrite) : Prop := ∀ run, w ≠ .insertRun run

theorem RowWrite.InsertsNoRun.under {w : RowWrite} (h : w.InsertsNoRun) (key : String) :
    w.InsertsUnder key := fun run hrun => absurd hrun (h run)

theorem insertsNoRun_audit {w : RowWrite} (h : ∃ row, w = .insertAudit row) : w.InsertsNoRun := by
  obtain ⟨row, rfl⟩ := h
  intro run hrun
  cases hrun

theorem insertsNoRun_update {w : RowWrite} (h : ∃ id columns, w = .updateRun id columns) :
    w.InsertsNoRun := by
  obtain ⟨id, columns, rfl⟩ := h
  intro run hrun
  cases hrun

theorem auditState_work (run : ReconciliationRun) (before after rationale : String)
    (at' : Instant) (metrics : Option RunMetrics) :
    (svc.auditState run before after rationale at' metrics).Work
      fun w => ∃ row, w = RowWrite.insertAudit row :=
  Work.bind (svc.logger.append_work _) fun _ => work_pure _

/-- Reaping a run writes its row and nothing else. -/
theorem reapOne_work (bankCode : String) (now : Instant) (run : ReconciliationRun) :
    (svc.reapOne bankCode now run).Work
      fun w => w = RowWrite.updateRun run.id (RunService.reapedColumns now) := by
  refine Work.bind (work_lockRow _) fun _ => Work.bind work_tables fun d' => ?_
  split
  · exact work_put.mpr rfl
  · exact work_pure _

theorem reapStale_work (bankCode : String) (now : Instant) :
    (svc.reapStale bankCode now).Work fun w => ∃ id columns, w = RowWrite.updateRun id columns :=
  Work.bind work_tables fun _ => Work.foldlM _ _ fun _ run _ =>
    (reapOne_work bankCode now run).weaken fun _ hw => ⟨_, _, hw⟩

/-- With no stale run there is nothing to reap. -/
theorem reapStale_none {bankCode : String} {now : Instant} {s : Session}
    (h : s.view.staleRuns bankCode (now - svc.staleRunAfter) = [])
    {Q : Unit → Session → Prop} {E : ReconError → Session → Prop} :
    (svc.reapStale bankCode now).wp Q E s ↔ Q () s := by
  unfold RunService.reapStale
  rw [bind_eq, wp_bind, wp_tables, h]
  exact Iff.rfl

theorem takeSlot_work {W : RowWrite → Prop} (bankCode : String) :
    (RunService.takeSlot bankCode).Work W :=
  Work.bind (work_lockRow _) fun _ => Work.bind work_tables fun _ => work_require _ _

/-- The slot of a bank is taken where nothing is RUNNING, and nothing is written for it. -/
theorem takeSlot_spec (bankCode : String) (s : Session) :
    (RunService.takeSlot bankCode).wp (fun _ s' => s' = s ∧ s.view.slotTaken bankCode = false)
      (fun _ s' => s' = s ∧ s.view.slotTaken bankCode = true) s := by
  unfold RunService.takeSlot
  simp only [bind_eq, wp_bind, wp_lockRow, wp_tables, wp_require]
  cases h : s.view.slotTaken bankCode
  · exact ⟨trivial, rfl⟩
  · exact ⟨trivial, rfl⟩

theorem indexRun_work {W : RowWrite → Prop} (run : ReconciliationRun) :
    (RunService.indexRun run).Work W := by
  unfold RunService.indexRun
  split
  · exact takeSlot_work _
  · exact work_pure _

theorem insertRun_work (run : ReconciliationRun) :
    (RunService.insertRun run).Work fun w => w = RowWrite.insertRun run :=
  Work.bind (work_lockRow _) fun _ => Work.bind work_tables fun _ =>
    Work.bind (work_require _ _) fun _ => Work.bind (indexRun_work _) fun _ => work_put.mpr rfl

/-- A run is inserted, or the index refuses it and nothing is written. -/
theorem insertRun_spec (run : ReconciliationRun) (s : Session) :
    (RunService.insertRun run).wp (fun _ s' => s' = s.write (.insertRun run))
      (fun _ s' => s' = s) s := by
  have hindex : (RunService.indexRun run).wp (fun _ s' => s' = s) (fun _ s' => s' = s) s := by
    unfold RunService.indexRun
    rw [wp_ite]
    split
    · exact (takeSlot_spec run.bankCode s).mono (fun _ _ h => h.1) fun _ _ h => h.1
    · exact rfl
  unfold RunService.insertRun
  simp only [bind_eq, wp_bind, wp_lockRow, wp_tables, wp_require]
  split
  · exact hindex.mono (fun _ s' hs => hs ▸ rfl) fun _ _ h => h
  · trivial

theorem replayRun_work {W : RowWrite → Prop} (existing : ReconciliationRun) (q : StartRequest) :
    (replayRun existing q).Work W := by
  unfold replayRun
  split
  · exact work_fail _
  · exact work_pure _

/-- Replaying a request creates nothing. -/
theorem replayRun_spec (existing : ReconciliationRun) (q : StartRequest) (s : Session) :
    (replayRun existing q).wp (fun out s' => out.created = false ∧ s' = s) (fun _ _ => True) s := by
  unfold replayRun
  rw [wp_ite]
  split
  · trivial
  · exact ⟨rfl, rfl⟩

/-- A failed insert ends in a replay or in an error. -/
theorem startConflict_spec (q : StartRequest) (e : ReconError) (s : Session) :
    (RunService.startConflict q e).wp
      (fun won s' => (∃ out, won = some out ∧ out.created = false) ∧ s' = s)
      (fun _ _ => True) s := by
  cases e with
  | integrity name =>
    unfold RunService.startConflict
    rw [wp_ite]
    split
    · rw [bind_eq, wp_bind, wp_tables]
      split
      · rename_i winner _
        rw [bind_eq, wp_bind]
        refine (replayRun_spec winner q s).mono ?_ fun _ _ h => h
        rintro out s' ⟨hout, hs⟩
        exact ⟨⟨out, rfl, hout⟩, hs⟩
      · trivial
    · rw [wp_ite]
      split <;> trivial
  | _ => trivial

/-- Starting inserts a run under its own key only. -/
theorem start_work (q : StartRequest) (now : Instant) :
    (svc.start q now).Work (RowWrite.InsertsUnder q.idempotencyKey) := by
  have hinsert : ∀ id w, w = RowWrite.insertRun (q.run id now) →
      w.InsertsUnder q.idempotencyKey := by
    intro id w hw run hrun
    obtain rfl := RowWrite.insertRun.inj (hw.symm.trans hrun)
    exact rfl
  refine Work.bind (work_require _ _) fun _ => Work.bind work_tables fun d => ?_
  split
  · exact replayRun_work _ _
  · refine Work.bind ((reapStale_work _ _).weaken fun _ hw => (insertsNoRun_update hw).under _)
      fun _ => Work.bind work_newId fun id => ?_
    refine Work.bind (Work.attempt (Work.bind ((insertRun_work _).weaken (hinsert id)) fun _ =>
      work_pure _) ?_) ?_
    · intro e
      cases e with
      | integrity name =>
        simp only [RunService.startConflict]
        split
        · refine Work.bind work_tables fun d => ?_
          split
          · exact Work.bind (replayRun_work _ _) fun _ => work_pure _
          · exact work_fail _
        · split
          · exact work_fail _
          · exact work_fail _
      | _ => exact work_fail _
    · intro won
      split
      · exact work_pure _
      · exact Work.bind ((auditState_work _ _ _ _ _ _).weaken fun _ hw =>
          (insertsNoRun_audit hw).under _) fun _ => work_pure _

variable (svc) in
/-- A request that reaps nothing replays an earlier one or creates its run. -/
theorem start_spec (q : StartRequest) (now : Instant) {s : Session}
    (hwell : WellChained svc.logger.sha256 (s.view.chain runsChain))
    (hfresh : s.view.statusText s.supply = "NONE")
    (hstale : s.view.runByKey q.idempotencyKey = none →
      s.view.staleRuns q.bankCode (now - svc.staleRunAfter) = []) :
    (svc.start q now).wp
      (fun out s' => s.supply ≤ s'.supply ∧ (out.created = false ∧ s'.view = s.view ∨
        out.created = true ∧ out.run = q.run s.supply now ∧ s.supply < s'.supply ∧
          Transition svc.logger.sha256 s.view s'.view s.supply
            (if q.defer then .pending else .running)))
      (fun _ _ => True) s := by
  unfold RunService.start
  simp only [bind_eq, wp_bind, wp_require, wp_tables]
  split
  swap
  · trivial
  split
  · rename_i existing _
    refine (replayRun_spec existing q s).mono ?_ fun _ _ h => h
    rintro out s' ⟨hout, hs⟩
    exact ⟨hs ▸ le_refl _, .inl ⟨hout, hs ▸ rfl⟩⟩
  · rename_i hkey
    rw [wp_bind, reapStale_none (hstale hkey), wp_bind, wp_newId, wp_bind]
    refine Work.wp_attempt (Work.bind (insertRun_work _) fun _ => work_pure none) ?_
    rw [wp_bind]
    refine (insertRun_spec (q.run s.supply now) s.take).mono ?_ ?_
    · intro _ s' hs'
      rw [wp_pure]
      dsimp only
      rw [wp_bind]
      have hview : s'.view = RowWrite.apply (.insertRun (q.run s.supply now)) s.view := by
        rw [hs', Session.view_write, Session.view_take]
      have hchain : s'.view.chain runsChain = s.view.chain runsChain := by rw [hview]; rfl
      refine (auditState_spec (q.run s.supply now) "NONE" _ _ now none (s := s')
        (hchain ▸ hwell)).mono ?_ fun _ _ _ => trivial
      rintro _ s'' ⟨hsupply, hruns, hwell', hentry⟩
      have hlt : s.supply < s''.supply := by
        rw [hs'] at hsupply
        exact hsupply
      refine ⟨Nat.le_of_lt hlt, .inr ⟨rfl, rfl, hlt, ?_⟩⟩
      show Transition svc.logger.sha256 s.view s''.view (q.run s.supply now).id
        (q.run s.supply now).status
      refine Transition.of_written ?_ hchain hruns hwell' ?_
      · intro id
        rw [hview]
        exact statusText_insert (Db.run?_eq_none hfresh) id
      · rw [show s.view.statusText (q.run s.supply now).id = "NONE" from hfresh]
        exact hentry
    · intro e s' hs'
      have hback : ({ s' with log := s.take.log } : Session) = s.take := by rw [hs']
      rw [hback]
      refine (startConflict_spec q e s.take).mono ?_ fun _ _ _ => trivial
      rintro _ s'' ⟨⟨out, rfl, hout⟩, rfl⟩
      exact ⟨Nat.le_succ s.supply, .inl ⟨hout, rfl⟩⟩

theorem tryActivate_work (id : Id) (now : Instant) :
    (svc.tryActivate id now).Work fun _ => True := by
  refine Work.bind (work_lockRow _) fun _ => Work.bind work_tables fun d => ?_
  split
  · exact work_fail _
  · refine Work.bind (work_require _ _) fun _ =>
      Work.bind ((reapStale_work _ _).weaken fun _ _ => trivial) fun _ => ?_
    refine Work.bind (Work.attempt (Work.bind (takeSlot_work _) fun _ =>
      Work.bind (work_put.mpr trivial) fun _ => work_pure _) fun e => ?_) fun activated => ?_
    · split
      · split
        · exact work_pure _
        · exact work_fail _
      · exact work_fail _
    · split
      · exact Work.bind ((auditState_work _ _ _ _ _ _).weaken fun _ _ => trivial) fun _ =>
          work_pure _
      · exact work_pure _

variable (svc) in
/-- With no stale run and a free slot, a PENDING run is activated. -/
theorem tryActivate_spec (id : Id) (now : Instant) {s : Session}
    (hwell : WellChained svc.logger.sha256 (s.view.chain runsChain))
    (hfree : ∀ run, s.view.run? id = some run → run.status = .pending →
      s.view.staleRuns run.bankCode (now - svc.staleRunAfter) = [] ∧
        s.view.slotTaken run.bankCode = false) :
    (svc.tryActivate id now).wp
      (fun out s' => out = true ∧ s.supply ≤ s'.supply ∧ s.view.statusText id = "PENDING" ∧
        Transition svc.logger.sha256 s.view s'.view id .running)
      (fun _ _ => True) s := by
  unfold RunService.tryActivate
  simp only [bind_eq, wp_bind, wp_lockRow, wp_tables]
  split
  · trivial
  · rename_i run hrun
    obtain rfl := Db.run?_id hrun
    rw [wp_bind, wp_require]
    split
    swap
    · trivial
    rename_i hpending
    replace hpending := of_decide_eq_true hpending
    obtain ⟨hstale, hslot⟩ := hfree run hrun hpending
    have hbefore : s.view.statusText run.id = "PENDING" := by
      rw [Db.statusText_of_run? hrun, hpending]
      rfl
    rw [wp_bind, reapStale_none hstale, wp_bind]
    refine Work.wp_attempt (W := fun _ => True) (Work.bind (takeSlot_work _) fun _ =>
      Work.bind (work_put.mpr trivial) fun _ => work_pure true) ?_
    rw [wp_bind]
    refine (takeSlot_spec run.bankCode s).mono ?_ ?_
    · rintro _ s' ⟨hs, _⟩
      rw [hs, wp_bind, wp_put, wp_pure, if_pos rfl, wp_bind]
      have hchain : (s.write (.updateRun run.id
          { status := some .running, startedAt := some now })).view.chain runsChain =
            s.view.chain runsChain := by rw [Session.view_write]; rfl
      refine (auditState_spec run "PENDING" "RUNNING" _ now none (hchain ▸ hwell)).mono ?_
        fun _ _ _ => trivial
      rintro _ s'' ⟨hsupply, hruns, hwell', hentry⟩
      refine ⟨rfl, hsupply, hbefore, Transition.of_written ?_ hchain hruns
        hwell' ?_⟩
      · intro id
        rw [Session.view_write]
        exact statusText_set hrun rfl id
      · rw [hbefore]
        exact hentry
    · rintro e s' ⟨-, htaken⟩
      rw [hslot] at htaken
      cases htaken

theorem finish_work (id : Id) (held : Option HeldRun) (status : RunStatus)
    (metrics : Option RunMetrics) (errorSummary : Option String) (now : Instant) :
    (svc.finish id held status metrics errorSummary now).Work RowWrite.InsertsNoRun := by
  refine Work.bind work_tables fun d => ?_
  split
  · exact work_fail _
  · exact Work.bind (work_lockRow _) fun _ =>
      Work.bind (work_put.mpr (insertsNoRun_update ⟨_, _, rfl⟩)) fun _ =>
        (auditState_work _ _ _ _ _ _).weaken fun _ hw => insertsNoRun_audit hw

variable (svc) in
/-- Finishing is a transition when the status of the run held, if there is one, is the current
one. -/
theorem finish_spec (id : Id) (held : Option HeldRun) (status : RunStatus)
    (metrics : Option RunMetrics) (errorSummary : Option String) (now : Instant) {s : Session}
    (hwell : WellChained svc.logger.sha256 (s.view.chain runsChain))
    (hheld : ∀ h ∈ held, s.view.statusText id = h.run.status.text) :
    (svc.finish id held status metrics errorSummary now).wp
      (fun _ s' => s.supply ≤ s'.supply ∧ Transition svc.logger.sha256 s.view s'.view id status)
      (fun _ _ => True) s := by
  unfold RunService.finish
  simp only [bind_eq, wp_bind, wp_tables]
  split
  · trivial
  · rename_i run hrun
    obtain rfl := Db.run?_id hrun
    have hbefore : ((held.map (·.run.status)).getD run.status).text =
        s.view.statusText run.id := by
      cases held with
      | none => exact (Db.statusText_of_run? hrun).symm
      | some h => exact (hheld h rfl).symm
    rw [wp_bind, wp_lockRow, wp_bind, wp_put, hbefore]
    have hchain : (s.write (.updateRun run.id
        (RunService.finishedColumns held status metrics errorSummary now))).view.chain runsChain =
          s.view.chain runsChain := by rw [Session.view_write]; rfl
    refine (auditState_spec run _ status.text _ now metrics (hchain ▸ hwell)).mono ?_
      fun _ _ _ => trivial
    rintro _ s' ⟨hsupply, hruns, hwell', hentry⟩
    refine ⟨hsupply, Transition.of_written ?_ hchain hruns hwell' hentry⟩
    intro id
    rw [Session.view_write]
    exact statusText_set hrun rfl id

/-! ## Executing -/

/-- A transition from one store is one from any store with the same runs. -/
theorem Transition.congr {sha256 : Sha256} {d₀ d d' : Db} {id : Id} {after : RunStatus}
    (h : Transition sha256 d d' id after) (hsame : SameRuns d₀ d) :
    Transition sha256 d₀ d' id after := by
  refine ⟨h.chained, h.status, ?_, fun id' hne => ?_⟩
  · rw [h.recorded, hsame.transitions, hsame.statusText]
  · obtain ⟨htransitions, hstatus⟩ := h.others id' hne
    exact ⟨htransitions.trans (hsame.transitions id'), hstatus.trans (hsame.statusText id')⟩

/-- The work of a run leaves the runs as it found them. -/
theorem leavesRuns_wp {α : Type} {p : Prog α} (hp : p.Work RowWrite.LeavesRuns) (s : Session) :
    p.wp (fun _ s' => s'.committed = s.committed ∧ s.supply ≤ s'.supply ∧ SameRuns s.view s'.view)
      (fun _ s' => s'.committed = s.committed ∧ s.supply ≤ s'.supply) s := by
  refine (hp.wp_frame s).mono ?_ fun _ _ h => ⟨h.1, h.2.1⟩
  rintro _ s' ⟨hc, hs, ws, hlog, hws⟩
  refine ⟨hc, hs, ?_⟩
  have hview : s'.view = schema.replay ws s.view := by
    rw [Session.view, hc, hlog, Schema.replay_append]
    rfl
  rw [hview]
  exact sameRuns_replay hws s.view

variable (svc) in
/-- A worker comes to `_finish` with the runs as it found them: with metrics, or with the type of an
error after the handler has rolled back. Any other error escapes, and nothing is committed. -/
theorem executeRead_finishes (work : RunWork) (held : HeldRun) (now : Instant) {s : Session}
    (hlog : s.log = []) {Q : Unit → Session → Prop}
    (hfinish : ∀ (held' : Option HeldRun) (status : RunStatus) (metrics : Option RunMetrics)
      (errorSummary : Option String) (s' : Session), (∀ h ∈ held', h = held) →
      SameRuns s.view s'.view → s.supply ≤ s'.supply →
        (svc.finish held.id held' status metrics errorSummary now).wp Q (fun _ _ => True) s') :
    (svc.executeRead work held now).wp Q
      (fun _ s' => s'.committed = s.committed ∧ s.supply ≤ s'.supply) s := by
  unfold RunService.executeRead
  rw [bind_eq, wp_bind]
  refine (leavesRuns_wp (work.prepare_work held.run) s).mono ?_ fun _ _ h => h
  rintro prepared s₁ ⟨hc₁, hs₁, hsame₁⟩
  rw [bind_eq, wp_bind]
  refine Work.wp_attempt (Work.bind (work.settle_work held.run prepared) fun _ => work_pure _) ?_
  rw [wp_bind]
  refine (leavesRuns_wp (work.settle_work held.run prepared) s₁).mono ?_ ?_
  · rintro settled s₂ ⟨hc₂, hs₂, hsame₂⟩
    rw [wp_pure]
    dsimp only
    rw [bind_eq, wp_bind]
    refine (leavesRuns_wp (work.measure_work held.run prepared settled) s₂).mono ?_ ?_
    · rintro metrics s₃ ⟨hc₃, hs₃, hsame₃⟩
      have hcompleted := hfinish (some held) .completed (some metrics) none s₃
        (fun h hh => (Option.mem_some.mp hh).symm) ((hsame₁.trans hsame₂).trans hsame₃)
        (hs₁.trans (hs₂.trans hs₃))
      refine ((finish_work _ _ _ _ _ _).wp_kept hcompleted).mono (fun _ _ h => h) ?_
      rintro _ s₄ ⟨hc₄, hs₄⟩
      exact ⟨hc₄.trans (hc₃.trans (hc₂.trans hc₁)), hs₁.trans (hs₂.trans (hs₃.trans hs₄))⟩
    · rintro _ s₃ ⟨hc₃, hs₃⟩
      exact ⟨hc₃.trans (hc₂.trans hc₁), hs₁.trans (hs₂.trans hs₃)⟩
  · rintro e s₂ ⟨hc₂, hs₂⟩
    -- The handler rolls back to what was committed when the worker began.
    rw [bind_eq, wp_bind, wp_rollbackNow, bind_eq, wp_bind]
    have hback : (({ s₂ with log := s₁.log } : Session).close).view = s.view := by
      show s₂.committed = schema.replay s.log s.committed
      rw [hlog, hc₂, hc₁]
      rfl
    have hfailed := hfinish none .failed none (some e.typeName)
      (({ s₂ with log := s₁.log } : Session).close) (fun _ hp => absurd hp (Option.not_mem_none _))
      (hback ▸ SameRuns.refl _) (hs₁.trans hs₂)
    refine ((finish_work _ _ _ _ _ _).wp_kept hfailed).mono (fun _ _ h => h) ?_
    rintro _ s₃ ⟨hc₃, hs₃⟩
    exact ⟨hc₃.trans (hc₂.trans hc₁), hs₁.trans (hs₂.trans hs₃)⟩

variable (svc) in
/-- A worker whose run is still RUNNING ends with one transition of it, or changes nothing. -/
theorem executeRead_spec (work : RunWork) (held : HeldRun) (now : Instant) {s : Session}
    (hlog : s.log = []) (hwell : WellChained svc.logger.sha256 (s.view.chain runsChain))
    (hrunning : held.run.status = .running) (hstatus : s.view.statusText held.id = "RUNNING") :
    (svc.executeRead work held now).wp
      (fun _ s' => s.supply ≤ s'.supply ∧
        ∃ after, Transition svc.logger.sha256 s.view s'.view held.id after)
      (fun _ s' => s'.committed = s.committed ∧ s.supply ≤ s'.supply) s := by
  refine executeRead_finishes svc work held now hlog ?_
  intro held' status metrics errorSummary s' hheld hsame hsupply
  have hcached : ∀ h ∈ held', s'.view.statusText held.id = h.run.status.text := by
    intro h hh
    rw [hheld h hh, hsame.statusText, hstatus, hrunning]
    rfl
  refine (finish_spec svc held.id held' status metrics errorSummary now (hsame.chain ▸ hwell)
    hcached).mono ?_ fun _ _ _ => trivial
  rintro _ s'' ⟨hsupply', htransition⟩
  exact ⟨hsupply.trans hsupply', _, htransition.congr hsame⟩

end Recon
