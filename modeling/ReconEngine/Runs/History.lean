import ReconEngine.Runs.Transitions

/-!
# The history of the runs

Histories are sequences of the requests that change a status: starting, picking up a queued run,
the reading with which a worker begins and the transaction with which it ends, over any number of
runs, banks and workers. A run has the one worker of the request that started or activated it; a
worker whose own session has started the run begins with the row it has, the worker of a queued run
reads it.

Two places write FAILED without an entry: reaping a stale run, and giving up a queued run whose
bank is busy. A history that reaches neither is reproduced by its entries; one that
does is at the end.

**The law** (`history_reproduced`): in such a history the entries of a run, replayed from its
creation, end in the status of its row.

**What it does not establish.** That entries tell when a status changed: the instants are the
callers'. Entries of other kinds, of matches and exceptions, are on chains of their own.
-/

set_option autoImplicit false

namespace Recon

open Store HashChain
open Store.Prog hiding pure bind

/-- A run that a request has just made RUNNING, and goes on to execute: with the row, where its
session has inserted it. -/
structure Launch where
  id : Id
  cached : Option ReconciliationRun
deriving DecidableEq, Repr

/-- The store, and what the workers are at. -/
structure RunSystem where
  db : Db
  supply : Nat
  launched : List Launch := []
  /-- Runs as the sessions of their workers hold them. -/
  working : List HeldRun := []

inductive RunOp where
  | start (q : StartRequest) (now : Instant)
  | pickUp (id : Id) (now failedAt : Instant)
  | begin (id : Id)
  | finish (id : Id) (work : RunWork) (now : Instant)

namespace RunSystem

variable (svc : RunService)

def session (s : RunSystem) : Session where
  committed := s.db
  log := []
  supply := s.supply

/-- The store that a request leaves. -/
def after (s : RunSystem) (s' : Session) : RunSystem :=
  { s with db := s'.committed, supply := s'.supply }

def step (s : RunSystem) : RunOp → RunSystem
  | .start q now =>
    match request (svc.start q now) s.session with
    | (.ok out, s') =>
      if out.created && !q.defer then
        { s.after s' with launched := ⟨out.run.id, some out.run⟩ :: s.launched }
      else s.after s'
    | (.error _, s') => s.after s'
  | .pickUp id now failedAt =>
    match request (svc.startQueued id now failedAt) s.session with
    | (.ok true, s') => { s.after s' with launched := ⟨id, none⟩ :: s.launched }
    | (_, s') => s.after s'
  | .begin id =>
    match s.launched.find? (·.id = id) with
    | none => s
    | some launch =>
      match request (RunService.readRunning id launch.cached) s.session with
      | (.ok held, s') =>
        { s.after s' with launched := s.launched.erase launch, working := held :: s.working }
      | (.error _, s') => { s.after s' with launched := s.launched.erase launch }
  | .finish id work now =>
    match s.working.find? (·.id = id) with
    | none => s
    | some held =>
      { s.after (request (svc.executeRead work held now) s.session).2 with
        working := s.working.filter (·.id ≠ id) }

def run (s : RunSystem) (ops : List RunOp) : RunSystem := ops.foldl (step svc) s

/-- The request does not come to a place that gives up a run unrecorded: it reaps no stale run, and
picks up a queued run only for a bank that is not busy. -/
def Orderly (s : RunSystem) : RunOp → Prop
  | .start q now => s.db.runByKey q.idempotencyKey = none →
    s.db.staleRuns q.bankCode (now - svc.staleRunAfter) = []
  | .pickUp id now _ => ∀ run, s.db.run? id = some run → run.status = .pending →
    s.db.staleRuns run.bankCode (now - svc.staleRunAfter) = [] ∧
      s.db.slotTaken run.bankCode = false
  | .begin _ | .finish .. => True

/-- Every request of the history is orderly where it is made. -/
def AllOrderly : RunSystem → List RunOp → Prop
  | _, [] => True
  | s, op :: ops => Orderly svc s op ∧ AllOrderly (s.step svc op) ops

/-- No run yet, and no entry about one; the rest of the store is arbitrary. -/
structure Blank (s : RunSystem) : Prop where
  runs : s.db.runs = []
  chain : s.db.chain runsChain = []
  idle : s.launched = [] ∧ s.working = []

/-! ## The invariant -/

/-- The runs that have a worker. -/
def busy (s : RunSystem) : List Id := s.launched.map (·.id) ++ s.working.map (·.id)

/-- The entries replay every run, and each worker's run is RUNNING. -/
structure Traced (sha256 : Sha256) (s : RunSystem) : Prop where
  chained : WellChained sha256 (s.db.chain runsChain)
  fresh : ∀ id, s.supply ≤ id → s.db.statusText id = "NONE"
  replays : ∀ id, Replays "NONE" (s.db.transitions id) (s.db.statusText id)
  workers : s.busy.Nodup
  active : ∀ id ∈ s.busy, s.db.statusText id = "RUNNING"
  cached : ∀ held ∈ s.working, held.run.status = .running
  started : ∀ launch ∈ s.launched, ∀ run ∈ launch.cached, run.id = launch.id ∧ run.status = .running

variable {svc} {sha256 : Sha256}

/-- Without runs there is nothing to trace. -/
theorem Blank.traced {s : RunSystem} (h : s.Blank) : s.Traced sha256 := by
  have hnone : ∀ id, s.db.statusText id = "NONE" := by
    intro id
    unfold Db.statusText Db.run?
    rw [h.runs]
    rfl
  have hbusy : s.busy = [] := by
    unfold busy
    rw [h.idle.1, h.idle.2]
    rfl
  refine ⟨?_, fun id _ => hnone id, fun id => ?_, ?_, ?_, ?_, ?_⟩
  · rw [h.chain]
    exact ⟨trivial, trivial⟩
  · rw [hnone]
    unfold Db.transitions
    rw [h.chain]
    exact rfl
  · rw [hbusy]
    exact List.nodup_nil
  · rw [hbusy]
    exact fun _ hid => absurd hid List.not_mem_nil
  · rw [h.idle.2]
    exact fun _ hheld => absurd hheld List.not_mem_nil
  · rw [h.idle.1]
    exact fun _ hlaunch => absurd hlaunch List.not_mem_nil

/-- Where the runs are traced their entries reproduce them. -/
theorem Traced.reproduced {s : RunSystem} (h : s.Traced sha256) : Reproduced s.db := by
  intro id run hrun
  rw [← Db.statusText_of_run? hrun]
  exact h.replays id

/-- A store with the same tables keeps the invariant. -/
theorem Traced.same {s : RunSystem} (h : s.Traced sha256) {s' : Session} (hdb : s'.committed = s.db)
    (hsupply : s.supply ≤ s'.supply) : (s.after s').Traced sha256 := by
  have hsame : (s.after s').db = s.db := hdb
  refine ⟨?_, ?_, ?_, h.workers, ?_, h.cached, h.started⟩
  · exact hsame ▸ h.chained
  · exact fun id hid => hsame ▸ h.fresh id (hsupply.trans hid)
  · exact hsame ▸ h.replays
  · exact hsame ▸ h.active

/-- A worker that stops takes nothing with it. -/
theorem Traced.fewer {s s' : RunSystem} (h : s.Traced sha256) (hdb : s'.db = s.db)
    (hsupply : s'.supply = s.supply) (hbusy : s'.busy.Sublist s.busy)
    (hlaunched : s'.launched ⊆ s.launched) (hworking : s'.working ⊆ s.working) :
    s'.Traced sha256 := by
  refine ⟨hdb ▸ h.chained, hdb ▸ hsupply ▸ h.fresh, hdb ▸ h.replays, h.workers.sublist hbusy, ?_,
    fun held hheld => h.cached held (hworking hheld),
    fun launch hlaunch => h.started launch (hlaunched hlaunch)⟩
  exact fun id hid => hdb ▸ h.active id (hbusy.subset hid)

/-- A transition of a run without a worker keeps the invariant, and gives the run one when it is
RUNNING now. -/
theorem Traced.transition {s : RunSystem} (h : s.Traced sha256) {d : Db} {n : Nat} {id : Id}
    {after : RunStatus} (ht : Transition sha256 s.db d id after) (hsupply : s.supply ≤ n)
    (hid : id < n) (hfree : id ∉ s.busy) :
    ({ s with db := d, supply := n } : RunSystem).Traced sha256 ∧
      ∀ cached : Option ReconciliationRun, after = .running →
        (∀ run ∈ cached, run.id = id ∧ run.status = .running) →
        ({ s with db := d, supply := n, launched := ⟨id, cached⟩ :: s.launched } :
          RunSystem).Traced sha256 := by
  have hfresh : ∀ id', n ≤ id' → d.statusText id' = "NONE" := by
    intro id' hle
    have hne : id' ≠ id := fun heq => absurd hid (Nat.not_lt.mpr (heq ▸ hle))
    rw [(ht.others id' hne).2]
    exact h.fresh id' (hsupply.trans hle)
  have hreplays : ∀ id', Replays "NONE" (d.transitions id') (d.statusText id') := by
    intro id'
    by_cases hid' : id' = id
    · subst hid'
      rw [ht.recorded, ht.status]
      exact (h.replays id').concat
    · obtain ⟨htransitions, hstatus⟩ := ht.others id' hid'
      rw [htransitions, hstatus]
      exact h.replays id'
  have hactive : ∀ id' ∈ s.busy, d.statusText id' = "RUNNING" := by
    intro id' hid'
    have hne : id' ≠ id := fun heq => hfree (heq ▸ hid')
    rw [(ht.others id' hne).2]
    exact h.active id' hid'
  refine ⟨⟨ht.chained, hfresh, hreplays, h.workers, hactive, h.cached, h.started⟩, ?_⟩
  intro cached hafter hcached
  refine ⟨ht.chained, hfresh, hreplays, List.nodup_cons.mpr ⟨hfree, h.workers⟩, ?_, h.cached, ?_⟩
  · intro id' hid'
    rcases List.mem_cons.mp hid' with rfl | hid'
    · rw [ht.status, hafter]
      rfl
    · exact hactive id' hid'
  · intro launch hlaunch
    rcases List.mem_cons.mp hlaunch with rfl | hlaunch
    · exact hcached
    · exact h.started launch hlaunch

/-! ## One request -/

/-- A start keeps the runs traced, if it reaps none. -/
theorem Traced.start {s : RunSystem} (h : s.Traced svc.logger.sha256) (q : StartRequest)
    (now : Instant) (ho : Orderly svc s (.start q now)) :
    (s.step svc (.start q now)).Traced svc.logger.sha256 := by
  have hspec := (start_work q now).wp_kept
    (start_spec svc q now (s := s.session) h.chained (h.fresh s.supply (le_refl _)) ho)
  simp only [RunSystem.step]
  rcases hspec.request with ⟨out, s', ⟨hsupply, hout⟩, hrequest⟩ | ⟨e, s', ⟨hdb, hsupply⟩, hrequest⟩
  · rw [hrequest]
    rcases hout with ⟨hcreated, hview⟩ | ⟨hcreated, hrun, hlt, htransition⟩
    · simp only [hcreated, Bool.false_and, Bool.false_eq_true, if_false]
      exact h.same hview hsupply
    · -- The new run's identifier is fresh, so that no worker has it.
      have hfree : s.supply ∉ s.busy := by
        intro hmem
        have hrunning := h.active s.supply hmem
        rw [h.fresh s.supply (le_refl _)] at hrunning
        exact absurd hrunning (by decide)
      obtain ⟨hidle, hlaunched⟩ := h.transition htransition hsupply hlt hfree
      dsimp only
      rw [hcreated, hrun]
      cases hdefer : q.defer with
      | true => exact hidle
      | false =>
        refine hlaunched (some (q.run s.supply now)) (by rw [hdefer]; rfl) fun run hcached => ?_
        obtain rfl := Option.mem_some.mp hcached
        exact ⟨rfl, by rw [StartRequest.run, hdefer]; rfl⟩
  · rw [hrequest]
    exact h.same hdb hsupply

theorem Traced.pickUp {s : RunSystem} (h : s.Traced svc.logger.sha256) (id : Id)
    (now failedAt : Instant) (ho : Orderly svc s (.pickUp id now failedAt)) :
    (s.step svc (.pickUp id now failedAt)).Traced svc.logger.sha256 := by
  have hactivate := (tryActivate_work id now).wp_kept
    (tryActivate_spec svc id now (s := s.session) h.chained ho)
  have hspec : (svc.startQueued id now failedAt).wp
      (fun out s' => out = true ∧ s.supply ≤ s'.supply ∧ s.db.statusText id = "PENDING" ∧
        Transition svc.logger.sha256 s.db s'.view id .running)
      (fun _ s' => s'.committed = s.db ∧ s.supply ≤ s'.supply) s.session := by
    unfold RunService.startQueued
    rw [bind_eq, wp_bind]
    refine hactivate.mono ?_ fun _ _ h => h
    rintro _ s' ⟨rfl, hsupply, hbefore, htransition⟩
    exact ⟨rfl, hsupply, hbefore, htransition⟩
  simp only [RunSystem.step]
  rcases hspec.request with ⟨_, s', ⟨rfl, hsupply, hbefore, htransition⟩, hrequest⟩ |
    ⟨e, s', ⟨hdb, hsupply⟩, hrequest⟩
  · rw [hrequest]
    have hfree : id ∉ s.busy := by
      intro hmem
      rw [h.active id hmem] at hbefore
      exact absurd hbefore (by decide)
    have hid : id < s.supply := by
      by_contra hle
      rw [h.fresh id (Nat.not_lt.mp hle)] at hbefore
      exact absurd hbefore (by decide)
    exact (h.transition htransition hsupply (Nat.lt_of_lt_of_le hid hsupply) hfree).2 none rfl
      fun _ hcached => absurd hcached (Option.not_mem_none _)
  · rw [hrequest]
    exact h.same hdb hsupply

/-- The reading of a worker writes nothing. -/
theorem Traced.begin {s : RunSystem} (h : s.Traced sha256) (id : Id) :
    (s.step svc (.begin id)).Traced sha256 := by
  simp only [RunSystem.step]
  cases hfind : s.launched.find? (·.id = id) with
  | none => exact h
  | some launch =>
    dsimp only
    have hmem := List.mem_of_find?_eq_some hfind
    obtain rfl : launch.id = id := by simpa using List.find?_some hfind
    have hspec : (RunService.readRunning launch.id launch.cached).wp
        (fun held s' => s' = s.session ∧ held.id = launch.id ∧ held.run.status = .running)
        (fun _ s' => s' = s.session) s.session := by
      cases hcached : launch.cached with
      | some run =>
        obtain ⟨hid, hrunning⟩ := h.started launch hmem run hcached
        simp only [RunService.readRunning]
        rw [bind_eq, wp_bind, wp_require, if_pos (by simpa using hrunning)]
        exact ⟨rfl, hid, hrunning⟩
      | none =>
        unfold RunService.readRunning
        simp only [bind_eq, wp_bind, wp_tablesMarking]
        split
        · exact rfl
        · rename_i run hrun
          rw [wp_bind, wp_require]
          split
          · rename_i hrunning
            exact ⟨rfl, Db.run?_id hrun, of_decide_eq_true hrunning⟩
          · exact rfl
    have hperm : (launch.id :: ((s.launched.erase launch).map (·.id) ++
        s.working.map (·.id))).Perm s.busy :=
      (((List.perm_cons_erase hmem).symm.map (·.id)).append_right _)
    rcases hspec.request with ⟨held, s', ⟨rfl, hid, hrunning⟩, hrequest⟩ | ⟨e, s', rfl, hrequest⟩
    · rw [hrequest]
      have hmoved : ((s.launched.erase launch).map (·.id) ++
          held.id :: s.working.map (·.id)).Perm s.busy := by
        rw [hid]
        exact List.perm_middle.trans hperm
      refine ⟨h.chained, h.fresh, h.replays, hmoved.nodup_iff.mpr h.workers, ?_, ?_, ?_⟩
      · exact fun id hid => h.active id (hmoved.mem_iff.mp hid)
      · intro held' hheld'
        rcases List.mem_cons.mp hheld' with rfl | hheld'
        · exact hrunning
        · exact h.cached held' hheld'
      · exact fun launch' hlaunch' => h.started launch' (List.mem_of_mem_erase hlaunch')
    · rw [hrequest]
      exact h.fewer rfl rfl ((List.erase_sublist.map _).append_right _) List.erase_subset
        (List.Subset.refl _)

/-- A worker ends its run with an entry. -/
theorem Traced.finish {s : RunSystem} (h : s.Traced svc.logger.sha256) (id : Id) (work : RunWork)
    (now : Instant) : (s.step svc (.finish id work now)).Traced svc.logger.sha256 := by
  simp only [RunSystem.step]
  cases hfind : s.working.find? (·.id = id) with
  | none => exact h
  | some held =>
    have hmem := List.mem_of_find?_eq_some hfind
    have hid : held.id = id := by simpa using List.find?_some hfind
    subst hid
    have hbusy : held.id ∈ s.busy := List.mem_append_right _ (List.mem_map_of_mem hmem)
    have hkeep : ((s.working.filter (·.id ≠ held.id)).map (·.id)).Sublist
        (s.working.map (·.id)) := List.filter_sublist.map _
    -- The worker is gone before its transition counts.
    have hstopped : ({ s with working := s.working.filter (·.id ≠ held.id) } :
        RunSystem).Traced svc.logger.sha256 :=
      h.fewer rfl rfl (hkeep.append_left _) (List.Subset.refl _) List.filter_sublist.subset
    have hspec := executeRead_spec svc work held now (s := s.session) rfl h.chained
      (h.cached held hmem) (h.active held.id hbusy)
    rcases hspec.request with ⟨_, s', ⟨hsupply, after, htransition⟩, hrequest⟩ |
      ⟨e, s', ⟨hdb, hsupply⟩, hrequest⟩
    · have hfree : held.id ∉ s.launched.map (·.id) ++
          (s.working.filter (·.id ≠ held.id)).map (·.id) := by
        intro hin
        rcases List.mem_append.mp hin with hin | hin
        · exact (List.nodup_append.mp h.workers).2.2 _ hin _ (List.mem_map_of_mem hmem) rfl
        · obtain ⟨held', hheld', heq⟩ := List.mem_map.mp hin
          exact absurd heq (by simpa using (List.mem_filter.mp hheld').2)
      have hlt : held.id < s.supply := by
        by_contra hle
        have hrunning := h.active held.id hbusy
        rw [h.fresh held.id (Nat.not_lt.mp hle)] at hrunning
        exact absurd hrunning (by decide)
      have hdone := (hstopped.transition htransition hsupply (Nat.lt_of_lt_of_le hlt hsupply)
        hfree).1
      simp only [hrequest]
      exact hdone
    · simp only [hrequest]
      exact hstopped.same hdb hsupply

/-- Every orderly request keeps the runs traced. -/
theorem Traced.step {s : RunSystem} (h : s.Traced svc.logger.sha256) (op : RunOp)
    (ho : Orderly svc s op) : (s.step svc op).Traced svc.logger.sha256 := by
  cases op with
  | start q now => exact h.start q now ho
  | pickUp id now failedAt => exact h.pickUp id now failedAt ho
  | begin id => exact h.begin id
  | finish id work now => exact h.finish id work now

/-! ## Whole histories -/

theorem Traced.run {s : RunSystem} (h : s.Traced svc.logger.sha256) (ops : List RunOp)
    (ho : AllOrderly svc s ops) : (s.run svc ops).Traced svc.logger.sha256 := by
  induction ops generalizing s with
  | nil => exact h
  | cons op ops ih => exact ih (h.step op ho.1) ho.2

/-- **The entries reproduce the history.** In every state that orderly requests lead to, the
entries of each run form a chain from NONE to the run's status. -/
theorem history_reproduced (svc : RunService) (s : RunSystem) (hs : s.Blank) (ops : List RunOp)
    (ho : AllOrderly svc s ops) : Reproduced (s.run svc ops).db :=
  (hs.traced.run ops ho).reproduced

/-! A run of one bank that is started, executed and finished, next to a queued one. -/

/-- Runs are stale after half an hour. -/
def halfHourService : RunService := ⟨⟨constantDigests⟩, 1800000000⟩

def noRuns : RunSystem := { db := {}, supply := 1 }

theorem noRuns_blank : noRuns.Blank := ⟨rfl, rfl, rfl, rfl⟩

def dailyRequest (key : String) : StartRequest :=
  { bankCode := "AXIS", idempotencyKey := key, requestedBy := "ops" }

def idleWork : RunWork where
  Prepared := Unit
  Settled := Unit
  prepare _ := return
  settle _ _ := return
  measure run _ _ := return ⟨[], run.mode, run.dateFrom, run.dateTo, none, 0⟩
  prepare_work _ := work_pure _
  settle_work _ _ := work_pure _
  measure_work _ _ _ := work_pure _

def orderlyDay : List RunOp :=
  [.start (dailyRequest "monday") 0, .start { dailyRequest "backlog" with defer := true } 1,
    .begin 1, .finish 1 idleWork 2]

theorem history_reproduced_day :
    Reproduced (noRuns.run halfHourService orderlyDay).db :=
  history_reproduced halfHourService noRuns noRuns_blank orderlyDay
    ⟨fun _ => by decide +kernel, fun _ => by decide +kernel, trivial, trivial, trivial⟩

/-- Two requests for one bank, the second when the first run has become stale. -/
def reapingDay : List RunOp :=
  [.start (dailyRequest "monday") 0, .start (dailyRequest "tuesday") 1800000001]

theorem reapingDay_keeps :
    ((noRuns.run halfHourService reapingDay).db.run? 1).isSome = true := by decide +kernel

/-- The reaped run is FAILED and its last entry says RUNNING. -/
theorem reaped_unrecorded :
    noRuns.Blank ∧ ¬ Reproduced (noRuns.run halfHourService reapingDay).db := by
  refine ⟨noRuns_blank, fun h => ?_⟩
  have hreplays := h 1 _ (Option.some_get reapingDay_keeps).symm
  exact absurd hreplays (by decide +kernel)

end RunSystem

end Recon
