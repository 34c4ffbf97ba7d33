import ReconEngine.Reporting.Compliance

/-!
# Days that were closed

A run matches, classifies what matching has left, and escalates what is late. **When each bank of a
period has had a run that was completed, the last of them not before the report, every transaction
of the period is accounted for and no exception is past its deadline unescalated**
(`closedDays_pass`), so that the verdict of the compliance report rests on the checks of chains,
files and statements alone.

A run covers the leftovers of its bank, the runs of other banks put nothing back into its pool, and
the scan of deadlines looks at the exceptions of all banks.

**What it does not establish.** A run with a date range classifies the leftovers of its range only,
and does not count as one that has closed the bank (`WholeRun`). The report looks at its own moment:
what is ingested or undone after the last run is not accounted for.
-/

set_option autoImplicit false

namespace Recon

open Store (Committed)
open Store.Prog hiding pure bind

/-! ## Keyed exceptions over histories -/

/-- Exceptions name what their keys are about, in tables that are sound. -/
def Indexed (n : Nat) (d : Db) : Prop := Sound n d ∧ d.Keyed

theorem indexed_grows : Grows (S := schema) Indexed :=
  fun n n' d hn h => ⟨sound_grows n n' d hn h.1, h.2⟩

theorem ofIntake_opensNone {w : RowWrite} (h : w.OfIntake) : w.OpensNone := by
  cases w with
  | insertException e => exact h.elim
  | _ => trivial

theorem ofHandling_opensNone {w : RowWrite} (h : w.OfHandling) : w.OpensNone := by
  cases w with
  | insertException e => exact h.elim
  | _ => trivial

theorem ofMatching_opensNone {w : RowWrite} (h : w.OfMatching) : w.OpensNone := by
  cases w with
  | insertException e => exact h.elim
  | _ => trivial

theorem byAction_opensNone {w : RowWrite} (h : w.ByAction) : w.OpensNone := by
  cases w with
  | insertException e => exact h.elim
  | _ => trivial

theorem keyed_grows : Grows (S := schema) fun _ (d : Db) => d.Keyed := fun _ _ _ _ h => h

theorem autoResolverRun_keyed (logger : AuditLogger) (bankCode : String) (runId : Option Id)
    (now : Instant) :
    (autoResolverRun logger bankCode runId now).Keeps fun _ (d : Db) => d.Keyed :=
  autoResolverRun_keeps (J := fun _ _ (d : Db) => d.Keyed) (fun _ => keyed_grows)
    (fun _ _ _ _ hw h => keyed_apply (ofHandling_opensNone hw) h) (fun _ _ h => h)
    (fun _ _ _ h => h)
    fun _ _ _ => keyed_of_work ((act_work _ _ _).weaken fun _ => byAction_opensNone)

theorem escalate_keyed (logger : AuditLogger) (bankCode : String) (runId : Option Id)
    (now : Instant) : (escalate logger bankCode runId now).Keeps fun _ (d : Db) => d.Keyed :=
  escalate_keeps keyed_grows
    (fun _ _ _ hw h => keyed_apply (ofHandling_opensNone (ofTriage_ofHandling hw)) h)
    (autoResolverRun_keyed _ _ _ _)

/-- An upload raises keyed exceptions only. -/
theorem process_keyed (p : IngestionPipeline) (up : Upload) (now : Instant) :
    (p.process up now).Keeps fun _ (d : Db) => d.Keyed :=
  process_keeps keyed_grows (fun _ _ _ hw h => keyed_apply (ofIntake_opensNone hw) h)
    (fun _ _ _ _ _ h => h) fun _ =>
      ⟨(classifyIngestionFile_work _ _ _).weaken fun _ _ => trivial,
        fun _ hs => classifyIngestionFile_keyed _ _ _ hs⟩

/-- A classification needs the identifiers of the transactions to be distinct. -/
theorem classifyRun_indexed (svc : ExceptionClassifier) (bankCode : String) (runId : Id)
    (now : Instant) (asOfDate : Option Date) (staleAfterDays : Option Int) (range : DateRange) :
    (svc.classifyRun bankCode runId now asOfDate staleAfterDays range).Keeps Indexed :=
  (leavesMatches_sound ((classifyRun_work _ _ _ _ _ _ _).weaken fun _ =>
    ofCreation_leavesMatches)).and_given fun _ hsound hkeyed =>
      classifyRun_keyed _ _ _ _ _ _ _ hsound.ledger.transactionIds hkeyed

/-- Every operation keeps the keys of exceptions distinct and naming what they are about. -/
theorem Operation.indexed (op : Operation) : op.program.Keeps Indexed := by
  have hmatching : op.program.Work RowWrite.OfMatching → op.program.Keeps Indexed := fun hwork =>
    op.sound.and (keyed_of_work (hwork.weaken fun _ => ofMatching_opensNone))
  cases op with
  | ingest p up now =>
    exact (Operation.ingest p up now).sound.and ((process_keyed p up now).bind fun _ => keeps_pure _)
  | level o bankCode l => exact hmatching (levelProgram_work l)
  | classify svc bankCode runId now asOfDate staleAfterDays range =>
    exact (classifyRun_indexed _ _ _ _ _ _ _).bind fun _ => keeps_pure _
  | autoResolve logger bankCode runId now =>
    exact (Operation.autoResolve logger bankCode runId now).sound.and
      ((autoResolverRun_keyed _ _ _ _).bind fun _ => keeps_pure _)
  | escalate logger bankCode runId now =>
    exact (Operation.escalate logger bankCode runId now).sound.and
      ((escalate_keyed _ _ _ _).bind fun _ => keeps_pure _)
  | handle logger id principal now h =>
    exact (Operation.handle logger id principal now h).sound.and
      (keyed_of_work ((handling_work _ _ _ _ h).weaken fun _ => ofHandling_opensNone))
  | confirm logger id reviewer note now =>
    exact hmatching (Work.bind ((confirmMatch_work _ _ _ _ _ _).weaken fun _ =>
      ofSettling_ofMatching) fun _ => work_pure _)
  | reject logger id reviewer reason now =>
    exact hmatching (Work.bind (rejectMatch_work _ _ _ _ _) fun _ => work_pure _)
  | create logger internalId externalId user note now =>
    exact hmatching (Work.bind ((createMatch_work _ _ _ _ _ _).weaken fun _ =>
      levelWrite_ofMatching) fun _ => work_pure _)
  | unmatch logger id user reason now =>
    exact hmatching (Work.bind (unmatch_work _ _ _ _ _) fun _ => work_pure _)

theorem operate_indexed {c : Committed schema} (h : Unclassified c) (ops : List Operation) :
    Indexed (operate c ops).supply (operate c ops).db := by
  refine Keeps.history indexed_grows Operation.indexed ⟨h.sound, ?_⟩ ops
  intro e he
  rw [h.exceptions] at he
  exact absurd he List.not_mem_nil

/-! ## Pools that are covered -/

/-- Every leftover of the bank is covered. -/
def Db.PoolCovered (d : Db) (bankCode : String) : Prop :=
  ∀ id, d.InPool bankCode id → d.Covers id

/-- What an exception covers stays covered, whatever is written. -/
theorem covers_apply (w : RowWrite) {d : Db} {id : Id} (h : d.Covers id) :
    (w.apply d).Covers id := by
  obtain ⟨e, he, hid⟩ := h
  cases w with
  | insertException new => exact ⟨e, List.mem_append_left _ he, hid⟩
  | updateException id columns =>
    refine ⟨_, List.mem_map_of_mem he, ?_⟩
    split <;> exact hid
  | _ => exact ⟨e, he, hid⟩

/-- A pool that is covered stays covered where nothing returns to it. -/
theorem poolCovered_apply {w : RowWrite} (hw : w.FreesNone) {d : Db} {bankCode : String}
    (h : d.PoolCovered bankCode) : (w.apply d).PoolCovered bankCode := by
  intro id hpool
  exact covers_apply w (h id (inPool_before hw hpool))

theorem poolCovered_of_work {α : Type} {p : Prog α} (hp : p.Work RowWrite.FreesNone)
    (bankCode : String) : p.Keeps fun _ (d : Db) => d.PoolCovered bankCode :=
  Keeps.of_writes (fun _ _ _ _ h => h) (fun _ _ _ hw h => poolCovered_apply hw h) hp

theorem ofLevel_freesNone {w : RowWrite} (h : w.OfLevel) : w.FreesNone := by
  cases w with
  | transactionStatus id status =>
    obtain rfl : status = .matched := h
    exact nofun
  | releaseClaim c => exact h.elim
  | insertTransaction t => exact h.elim
  | _ => trivial

/-- Escalation returns nothing to a pool. -/
theorem escalate_poolCovered (logger : AuditLogger) (bankCode bank : String) (runId : Option Id)
    (now : Instant) :
    (escalate logger bankCode runId now).Keeps fun _ (d : Db) => d.PoolCovered bank := by
  have hgrows : Grows (S := schema) fun _ (d : Db) => d.PoolCovered bank := fun _ _ _ _ h => h
  refine escalate_keeps hgrows
    (fun _ _ _ hw h => poolCovered_apply (ofHandling_freesNone (ofTriage_ofHandling hw)) h) ?_
  exact autoResolverRun_keeps (J := fun _ _ (d : Db) => d.PoolCovered bank) (fun _ => hgrows)
    (fun _ _ _ _ hw h => poolCovered_apply (ofHandling_freesNone hw) h) (fun _ _ h => h)
    (fun _ _ _ h => h)
    fun _ e _ => poolCovered_of_work ((act_ofAction _ _ _).weaken fun _ => ofAction_freesNone) _

namespace WholeRun

variable (r : WholeRun)

theorem execute_indexed : (r.orchestrator.execute r.bankCode).Keeps Indexed :=
  execute_keeps fun l => (Operation.level r.orchestrator r.bankCode l).indexed

theorem classify_indexed : r.classify.Keeps Indexed := classifyRun_indexed _ _ _ _ _ _ _

theorem escalate_indexed :
    (escalate r.classifier.logger r.bankCode (some r.orchestrator.run) r.now).Keeps Indexed :=
  (keeps_of_effect (Operation.escalate r.classifier.logger r.bankCode (some r.orchestrator.run)
    r.now).sound).and (escalate_keyed _ _ _ _)

/-- A run of one bank keeps what another's leftovers are covered by. -/
theorem program_poolCovered (bank : String) :
    r.program.Keeps fun _ (d : Db) => d.PoolCovered bank := by
  have hcreation : ∀ {α : Type} {p : Prog α}, p.Work RowWrite.OfCreation →
      p.Keeps fun _ (d : Db) => d.PoolCovered bank :=
    fun hp => poolCovered_of_work (hp.weaken fun _ => ofCreation_freesNone) bank
  have hexecute : (r.orchestrator.execute r.bankCode).Keeps fun _ (d : Db) => d.PoolCovered bank :=
    execute_keeps fun l => poolCovered_of_work ((levelProgram_ofLevel l).weaken
      fun _ => ofLevel_freesNone) bank
  exact hexecute.bind fun _ => (hcreation (classifyRun_work _ _ _ _ _ _ _)).bind fun _ =>
    (escalate_poolCovered _ _ bank _ _).bind fun _ => keeps_pure _

/-- After the classification of a run without a range every leftover of its bank is covered. -/
theorem classify_covers {s : Session} (hs : Indexed s.supply s.view) :
    r.classify.wp (fun _ s' => s'.view.PoolCovered r.bankCode) (fun _ _ => True) s := by
  unfold classify ExceptionClassifier.classifyRun
  rw [bind_eq, wp_bind]
  have hwork := classifyUnmatched_work r.classifier r.bankCode r.orchestrator.run r.now
    (r.staleAfterDays.map fun _ => r.today) r.staleAfterDays r.orchestrator.range
  have hkeeps := Work.wp_keeps (f := fun d : Db => (d.transactions, d.claims)) (fun w d hw => by
    cases w with
    | insertException e => rfl
    | insertEvent e => rfl
    | insertAudit row => rfl
    | _ => exact hw.elim) hwork s
  have hids := hs.1.ledger.transactionIds
  refine ((classifyUnmatched_covers _ _ _ _ _ _ _ hids hs.2).and hkeeps).mono ?_
    fun _ _ _ => trivial
  rintro _ s₁ ⟨⟨-, cs, hcs, hcovered⟩, -, hsame⟩
  obtain ⟨ht, hc⟩ := Prod.mk.inj hsame
  obtain ⟨-, -, hnames⟩ := leftoverCandidates_names hids hcs
  have hpool : s₁.view.PoolCovered r.bankCode := by
    rintro id ⟨t, hmem, rfl, hbank, hunmatched, hfree⟩
    have hleft : s.view.IsLeftover r.bankCode r.orchestrator.range t := by
      refine ⟨ht ▸ hmem, hbank, hunmatched, ?_, ?_⟩
      · unfold Db.isClaimed at hfree ⊢
        exact hc ▸ hfree
      · rw [r.whole]
        rfl
    exact List.mem_flatMap.mp (hcovered t.id (hnames t hleft))
  have hrest : ∀ candidates : Db → Except ReconError (List Candidate),
      (r.classifier.classifyWith candidates r.orchestrator.run r.now).Keeps
        fun _ (d : Db) => d.PoolCovered r.bankCode := fun candidates =>
    poolCovered_of_work ((classifyWith_work _ _ _ _).weaken fun _ => ofCreation_freesNone) _
  exact ((hrest _).bind fun _ => (hrest _).bind fun _ => (hrest _).bind fun _ =>
    keeps_pure _).kept s₁ hpool

end WholeRun

/-! ## Deadlines that were scanned -/

/-- The open exceptions past the deadline without a stamp are among these. -/
def StampedBut (now : Instant) (todo : List Id) (d : Db) : Prop :=
  ∀ e ∈ d.exceptions, e.status.isOpen = true → e.slaDeadline < now → e.slaBreachedAt = none →
    e.id ∈ todo

/-- An overdue exception gets its stamp, and the others of the scan keep theirs. -/
theorem breachOne_stamps (logger : AuditLogger) (now : Instant) (e : ReconException)
    (todo : List Id) {s : Session} (h : StampedBut now (e.id :: todo) s.view) :
    (breachOne logger now e).wp (fun _ s' => StampedBut now todo s'.view) (fun _ _ => True) s := by
  have hkept : ∀ event : AuditEvent,
      (logger.append event).Keeps fun _ (d : Db) => StampedBut now todo d := fun event =>
    Keeps.of_writes (fun _ _ _ _ h => h) (fun _ w _ hw h => by
      obtain ⟨row, rfl⟩ := hw
      exact h) (logger.append_work event)
  have hstamp : StampedBut now todo
      ((RowWrite.updateException e.id (breachColumns e now)).apply s.view) := by
    intro e' he' hopen hpast hnone
    obtain ⟨old, hold, rfl⟩ := Store.mem_updateIn.mp he'
    by_cases hid : old.id ∈ [e.id]
    · rw [if_pos hid] at hnone
      have hcolumns : (breachColumns e now).slaBreachedAt = some now := by
        unfold breachColumns
        dsimp only
        split <;> rfl
      simp [ExceptionColumns.set, hcolumns] at hnone
    · rw [if_neg hid] at hopen hpast hnone ⊢
      have hmem := h old hold hopen hpast hnone
      exact (List.mem_cons.mp hmem).resolve_left fun heq => hid (heq ▸ List.mem_singleton_self _)
  unfold breachOne breach
  simp only [bind_eq, wp_bind, wp_put]
  refine ((hkept _).kept _ ?_).mono (fun _ _ h => h) fun _ _ _ => trivial
  rw [Store.Session.view_write, Store.Session.view_write]
  exact hstamp

/-- After the scan no overdue exception is without one. -/
theorem eachRow_stamps (logger : AuditLogger) (now : Instant) :
    ∀ (es : List ReconException) {s : Session}, StampedBut now (es.map (·.id)) s.view →
      (eachRow (breachOne logger now) es).wp (fun _ s' => StampedBut now [] s'.view)
        (fun _ _ => True) s
  | [], _, h => h
  | e :: es, s, h => by
    unfold eachRow
    rw [bind_eq, wp_bind]
    rw [List.map_cons] at h
    refine (breachOne_stamps logger now e _ h).mono ?_ fun _ _ _ => trivial
    intro _ s' hs'
    rw [bind_eq, wp_bind]
    exact (eachRow_stamps logger now es hs').mono (fun _ _ h => h) fun _ _ _ => trivial

/-- After the scan every open exception past its deadline has its stamp. -/
theorem slaScan_stamps (logger : AuditLogger) (now : Instant) (s : Session) :
    (slaScan logger now).wp (fun _ s' => StampedBut now [] s'.view) (fun _ _ => True) s := by
  have hbreaching : StampedBut now ((s.view.breaching now).map (·.id)) s.view := by
    intro e he hopen hpast hnone
    refine List.mem_map_of_mem ?_
    unfold Db.breaching
    rw [List.mem_insertionSort, List.mem_filter]
    exact ⟨he, by simp [hopen, hpast, hnone]⟩
  have hlocked : (lockAll (s.view.breaching now)).Keeps fun _ (d : Db) =>
      StampedBut now ((s.view.breaching now).map (·.id)) d :=
    Keeps.of_reads (fun _ _ _ _ h => h) (lockAll_work _)
  unfold slaScan
  rw [bind_eq, wp_bind, wp_tables, bind_eq, wp_bind]
  refine (hlocked.kept s hbreaching).mono ?_ fun _ _ _ => trivial
  intro _ s₁ h₁
  rw [bind_eq, wp_bind]
  exact (eachRow_stamps logger now _ h₁).mono (fun _ _ h => h) fun _ _ _ => trivial

/-! ## Days -/

namespace WholeRun

variable (r : WholeRun)

theorem program_indexed : r.program.Keeps Indexed :=
  r.execute_indexed.bind fun _ => r.classify_indexed.bind fun _ =>
    r.escalate_indexed.bind fun _ => keeps_pure _

/-- The scan of deadlines is the last thing an escalation does. -/
theorem escalate_stamps (s : Session) :
    (escalate r.classifier.logger r.bankCode (some r.orchestrator.run) r.now).wp
      (fun _ s' => StampedBut r.now [] s'.view) (fun _ _ => True) s := by
  unfold escalate
  rw [bind_eq, wp_bind]
  refine ((autoResolverRun_work _ _ _ _).wp_frame s).mono ?_ fun _ _ _ => trivial
  intro _ s₁ _
  rw [bind_eq, wp_bind]
  refine ((assignQueues_work _ _ _).wp_frame s₁).mono ?_ fun _ _ _ => trivial
  intro _ s₂ _
  rw [bind_eq, wp_bind]
  exact (slaScan_stamps _ _ s₂).mono (fun _ _ h => h) fun _ _ _ => trivial

/-- What a run has done when it is completed. -/
theorem program_closes {s : Session} (hs : Indexed s.supply s.view) :
    r.program.wp (fun _ s' => s'.view.PoolCovered r.bankCode ∧ StampedBut r.now [] s'.view)
      (fun _ _ => True) s := by
  unfold program
  rw [bind_eq, wp_bind]
  refine (r.execute_indexed.kept s hs).mono ?_ fun _ _ _ => trivial
  intro _ s₁ h₁
  rw [bind_eq, wp_bind]
  refine (r.classify_covers h₁).mono ?_ fun _ _ _ => trivial
  intro _ s₂ h₂
  rw [bind_eq, wp_bind]
  refine (((escalate_poolCovered _ _ r.bankCode _ _).kept s₂ h₂).and
    (r.escalate_stamps s₂)).mono ?_ fun _ _ _ => trivial
  exact fun _ _ h => h

end WholeRun

/-- Runs of several banks, one after another. -/
def closeDays (c : Committed schema) (runs : List WholeRun) : Committed schema :=
  c.history WholeRun.program runs

/-- Every run is completed. -/
def RunsComplete (c : Committed schema) (runs : List WholeRun) : Prop :=
  ∀ before r after, runs = before ++ r :: after →
    (r.program.request (closeDays c before).session).1.toBool = true

/-- A request that succeeds ends as its program does. -/
theorem wp_serve_ok {α : Type} {p : Prog α} {Q : Db → Prop} (hp : p.Work fun _ => True)
    {c : Committed schema} (h : p.wp (fun _ s' => Q s'.view) (fun _ _ => True) c.session)
    (hok : (p.request c.session).1.toBool = true) : Q (c.serve p).db := by
  have hspec := hp.wp_kept h
  unfold Committed.serve
  rcases hspec.request with ⟨_, s', hs', hrequest⟩ | ⟨_, _, -, hrequest⟩
  · rw [hrequest]
    exact hs'
  · rw [hrequest] at hok
    cases hok

/-- The pools of the banks whose runs are completed are covered at the end, whatever runs of other
banks are between. -/
theorem closeDays_covers {c : Committed schema} (hc : Indexed c.supply c.db)
    {runs : List WholeRun} (hdone : RunsComplete c runs) {bank : String}
    (h : bank ∈ runs.map (·.bankCode) ∨ c.db.PoolCovered bank) :
    (closeDays c runs).db.PoolCovered bank := by
  induction runs generalizing c with
  | nil => exact h.resolve_left List.not_mem_nil
  | cons r rest ih =>
    have hok : (r.program.request c.session).1.toBool = true := hdone [] r rest rfl
    refine ih (r.program_indexed.serve indexed_grows hc) ?_ ?_
    · intro before r' after heq
      exact hdone (r :: before) r' after (congrArg (r :: ·) heq)
    · by_cases hbank : bank = r.bankCode
      · have hcovered := wp_serve_ok r.program_work (Q := fun d => d.PoolCovered r.bankCode)
          ((r.program_closes (s := c.session) hc).mono (fun _ _ h => h.1) fun _ _ _ => trivial) hok
        exact .inr (hbank ▸ hcovered)
      · rcases h with hmem | hcovered
        · exact .inl ((List.mem_cons.mp hmem).resolve_left hbank)
        · exact .inr ((r.program_poolCovered bank).serve (fun _ _ _ _ h => h) hcovered)

/-- **The law of closed days.** -/
theorem closedDays_pass {c : Committed schema} (h : Unclassified c) (ops : List Operation)
    {runs : List WholeRun} {last : WholeRun}
    (hdone : RunsComplete (operate c ops) (runs ++ [last])) (g : ReportGenerator)
    (checks : CheckRecords) (p : Period) (hnow : g.now ≤ last.now)
    (hbanks : ∀ t ∈ (closeDays (operate c ops) (runs ++ [last])).db.transactions,
      p.has t.txnDate = true → t.bankCode ∈ (runs ++ [last]).map (·.bankCode)) :
    let d := (closeDays (operate c ops) (runs ++ [last])).db
    d.AccountedFor p ∧ g.Escalated d p ∧
      ((g.auditCompliance d checks p).verdict = some "PASS" ↔ g.ChecksPassed d checks p) := by
  intro d
  have hstart : Indexed (operate c ops).supply (operate c ops).db := operate_indexed h ops
  have hindexed : Indexed (closeDays (operate c ops) (runs ++ [last])).supply d :=
    Keeps.history indexed_grows WholeRun.program_indexed hstart _
  have haccounted : d.uncoveredCount p = 0 := by
    rw [Db.uncoveredCount, Db.uncovered_eq, List.length_eq_zero_iff,
      List.eq_nil_iff_forall_not_mem]
    intro t hmem
    obtain ⟨hmem, hstanding⟩ := Tabular.mem_ofClass.mp hmem
    obtain ⟨ht, hday⟩ := List.mem_filter.mp hmem
    obtain ⟨hunmatched, hfree, hnot⟩ := (Db.standing_uncovered d).mp hstanding
    have hcovered : d.PoolCovered t.bankCode :=
      closeDays_covers hstart hdone (.inl (hbanks t ht hday))
    exact hnot (hcovered t.id ⟨t, ht, rfl, rfl, hunmatched, hfree⟩)
  have hescalated : g.Escalated d p := by
    have hbefore : Indexed (closeDays (operate c ops) runs).supply
        (closeDays (operate c ops) runs).db :=
      Keeps.history indexed_grows WholeRun.program_indexed hstart _
    have hend : d = ((closeDays (operate c ops) runs).serve last.program).db := by
      show ((operate c ops).history WholeRun.program (runs ++ [last])).db = _
      unfold Committed.history
      rw [List.foldl_append]
      rfl
    have hstamped : StampedBut last.now [] d := by
      rw [hend]
      refine wp_serve_ok last.program_work (Q := fun d => StampedBut last.now [] d) ?_
        (hdone runs last [] rfl)
      exact (last.program_closes (s := (closeDays (operate c ops) runs).session) hbefore).mono
        (fun _ _ h => h.2) fun _ _ _ => trivial
    intro e he _ hopen hpast hnone
    exact absurd (hstamped e he hopen (lt_of_lt_of_le hpast hnow) hnone) List.not_mem_nil
  refine ⟨(hindexed.1.ledger.accountedFor_iff p).mp haccounted, hescalated, ?_⟩
  rw [ReportGenerator.verdict_pass_iff]
  exact ⟨fun h => h.2.2, fun h => ⟨haccounted, hescalated, h⟩⟩

/-- The day of AXIS, and a payment of HDFC that has only one side. -/
def twoBankDay : Committed schema where
  db :=
    { settledDay.db with
      transactions := settledDay.db.transactions ++
        [{ leftoverRow 5 .internal 900 with bankCode := "HDFC", ingestionFileId := 2 }]
      files := [{ id := 1, bankCode := "AXIS", ingestedAt := 0 },
        { id := 2, bankCode := "HDFC", ingestedAt := 0, contentSha256 := "2" }] }
  supply := 6

theorem twoBankDay_unbooked : Unbooked twoBankDay := by
  constructor
  case adjustments => rfl
  constructor
  case exceptions => rfl
  constructor
  case results => rfl
  case claims => rfl
  all_goals decide

/-- A person has matched the pair that agrees, and undone the match. -/
def workedAndUndone : List Operation :=
  [.create ⟨constantDigests⟩ 3 4 "asha" "same payment" 1,
   .unmatch ⟨constantDigests⟩ 8 "asha" "wrong pair" 2]

/-- AXIS twice, and HDFC in between. -/
def twoBankRuns : List WholeRun :=
  [axisRun 101 3, { axisRun 102 4 with bankCode := "HDFC" }]

theorem closedDays_pass_axis :
    let d := (closeDays (operate twoBankDay workedAndUndone) (twoBankRuns ++ [axisRun 103 10])).db
    d.AccountedFor ⟨739000, 739000⟩ ∧ dayReport.Escalated d ⟨739000, 739000⟩ ∧
      ((dayReport.auditCompliance d dayChecks ⟨739000, 739000⟩).verdict = some "PASS" ↔
        dayReport.ChecksPassed d dayChecks ⟨739000, 739000⟩) := by
  apply @closedDays_pass twoBankDay twoBankDay_unbooked.toUnclassified workedAndUndone twoBankRuns
    (axisRun 103 10) ?_ dayReport _ _ (by decide) (by decide +kernel)
  intro before r after heq
  rcases before with _ | ⟨first, _ | ⟨second, _ | ⟨third, before⟩⟩⟩
  · cases heq
    decide +kernel
  · cases heq
    decide +kernel
  · cases heq
    decide +kernel
  · have hlength := congrArg List.length heq
    simp [twoBankRuns] at hlength

end Recon
