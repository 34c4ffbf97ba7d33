import ReconEngine.Exceptions.Handling
import ReconEngine.Ingestion.Accounting
import ReconEngine.Matching.Manual
import ReconEngine.Matching.Orchestrator
import ReconEngine.Store.Requests

/-!
# The operations of the engine

The operations that touch transactions, matches and exceptions, as requests that are served one
after another: ingestion of a file, the levels of a run, classification, auto-resolution and
escalation, and what people do to matches and exceptions. Each family of them has its own writes.

**The rule** (`Keeps.history`): what every kind of write keeps is kept by every operation and so by
every history. The theorems of this module say which writes an operation is made of (`_ofLevel`,
`_ofHandling`, `_ofTriage`, `_ofIntake`), so that an invariant is proved against the writes of a
family and never against a program.

**What it does not establish.** A history is a list of requests, each of which ends before the next
begins; one that fails is rolled back by its transaction and leaves the tables as they were. The
clock and the identifiers of a history are given with its operations.
-/

set_option autoImplicit false

namespace Recon

open Store (Committed)
open Store.Prog hiding pure bind

/-! ## Operations -/

/-- A level of a run, on the pools it fetches. -/
inductive Level where
  | setBased
  | exact
  | crossCurrency (rules : RuleStageConfig)
  | group
  | fuzzy
  | rule

def Level.program (o : Orchestrator) (bankCode : String) : Level → Prog Unit
  | .setBased => do
    let _ ← o.setBasedStage bankCode
  | .exact => do
    let _ ← o.exactStage bankCode
  | .crossCurrency rules => do
    let _ ← o.crossCurrencyStage bankCode rules
  | .group => do
    let _ ← o.groupStage bankCode
  | .fuzzy => do
    let (internals, externals) ← pools bankCode o.range
    let _ ← o.fuzzyStage internals externals
  | .rule => do
    let _ ← o.ruleStage bankCode

/-- What people do to an exception. -/
inductive Handling where
  | resolve (body : ResolveRequest)
  | assign (body : AssignRequest)
  | override (body : OverrideRequest)
  | reopen (body : ReopenRequest)

def Handling.program (logger : AuditLogger) (id : Id) (principal : Principal) (now : Instant) :
    Handling → Prog Unit
  | .resolve body => resolveException logger id body principal now
  | .assign body => assignException logger id body principal now
  | .override body => overrideException logger id body principal now
  | .reopen body => reopenException logger id body principal now

inductive Operation where
  | ingest (p : IngestionPipeline) (up : Upload) (now : Instant)
  | level (o : Orchestrator) (bankCode : String) (l : Level)
  | classify (svc : ExceptionClassifier) (bankCode : String) (runId : Id) (now : Instant)
      (asOfDate : Option Date) (staleAfterDays : Option Int) (range : DateRange)
  | autoResolve (logger : AuditLogger) (bankCode : String) (runId : Option Id) (now : Instant)
  | escalate (logger : AuditLogger) (bankCode : String) (runId : Option Id) (now : Instant)
  | handle (logger : AuditLogger) (id : Id) (principal : Principal) (now : Instant) (h : Handling)
  | confirm (logger : AuditLogger) (id : Id) (reviewer : String) (note : Option String)
      (now : Instant)
  | reject (logger : AuditLogger) (id : Id) (reviewer reason : String) (now : Instant)
  | create (logger : AuditLogger) (internalId externalId : Id) (user note : String) (now : Instant)
  | unmatch (logger : AuditLogger) (id : Id) (user reason : String) (now : Instant)

def Operation.program : Operation → Prog Unit
  | .ingest p up now => do
    let _ ← p.process up now
  | .level o bankCode l => l.program o bankCode
  | .classify svc bankCode runId now asOfDate staleAfterDays range => do
    let _ ← svc.classifyRun bankCode runId now asOfDate staleAfterDays range
  | .autoResolve logger bankCode runId now => do
    let _ ← autoResolverRun logger bankCode runId now
  | .escalate logger bankCode runId now => do
    let _ ← Recon.escalate logger bankCode runId now
  | .handle logger id principal now h => h.program logger id principal now
  | .confirm logger id reviewer note now => do
    let _ ← confirmMatch logger id reviewer note false now
  | .reject logger id reviewer reason now => do
    let _ ← rejectMatch logger id reviewer reason now
  | .create logger internalId externalId user note now => do
    let _ ← createMatch logger internalId externalId user note now
  | .unmatch logger id user reason now => do
    let _ ← Recon.unmatch logger id user reason now

/-- Requests for operations, one after another. -/
def operate (c : Committed schema) (ops : List Operation) : Committed schema :=
  c.history Operation.program ops

/-! ## What is written -/

/-- The writes of the levels. -/
abbrev RowWrite.OfLevel : RowWrite → Prop := LevelWrite fun _ => True

/-- The writes of the levels and of what people do to matches. -/
def RowWrite.OfMatching : RowWrite → Prop
  | .transactionStatus _ status => status ≠ .voided
  | .insertResult _ | .resultStatus .. | .insertClaim _ | .claimResult .. | .releaseClaim _
  | .insertAudit _ => True
  | _ => False

/-- The writes of what happens to an exception that exists: it never becomes OPEN again. -/
def RowWrite.OfHandling : RowWrite → Prop
  | .updateException _ columns => columns.status ≠ some .open
  | .insertEvent _ | .insertAudit _ => True
  | _ => False

/-- The writes of what happens to an exception but for its resolution. -/
def RowWrite.OfTriage : RowWrite → Prop
  | .updateException _ columns =>
    ∀ status, columns.status = some status → status = .escalated ∨ status = .reopened
  | .insertEvent _ | .insertAudit _ => True
  | _ => False

/-- The writes of an ingestion but for transactions and exceptions. -/
def RowWrite.OfIntake : RowWrite → Prop
  | .insertFile _ | .insertRaw _ => True
  | w => w.OfScan

/-- What a level writes is a write about matches. -/
theorem levelWrite_ofMatching {ok : MatchColumns → Prop} {w : RowWrite} (h : LevelWrite ok w) :
    w.OfMatching := by
  cases w with
  | insertResult r => trivial
  | transactionStatus t status =>
    obtain rfl : status = .matched := h
    exact nofun
  | insertClaim c => trivial
  | claimResult c r => trivial
  | insertAudit row => trivial
  | _ => exact h.elim

theorem ofSettling_ofMatching {w : RowWrite} (h : w.OfSettling) : w.OfMatching := by
  cases w with
  | transactionStatus t status =>
    obtain rfl : status = .matched := h
    exact nofun
  | insertAudit row => trivial
  | releaseClaim c => trivial
  | voidTransaction id original => exact h.elim
  | insertAdjustment a => exact h.elim
  | _ => exact h

/-- A scan of amounts is part of an upload. -/
theorem ofScan_ofIntake {w : RowWrite} (h : w.OfScan) : w.OfIntake := by
  cases w with
  | insertFile f => trivial
  | insertRaw r => trivial
  | _ => exact h

theorem append_ofMatching (logger : AuditLogger) (event : AuditEvent) :
    (logger.append event).Work RowWrite.OfMatching := by
  refine (logger.append_work event).weaken ?_
  rintro _ ⟨row, rfl⟩
  trivial

theorem append_ofHandling (logger : AuditLogger) (event : AuditEvent) :
    (logger.append event).Work RowWrite.OfHandling := by
  refine (logger.append_work event).weaken ?_
  rintro _ ⟨row, rfl⟩
  trivial

theorem append_ofTriage (logger : AuditLogger) (event : AuditEvent) :
    (logger.append event).Work RowWrite.OfTriage := by
  refine (logger.append_work event).weaken ?_
  rintro _ ⟨row, rfl⟩
  trivial

theorem ofTriage_ofHandling {w : RowWrite} (h : w.OfTriage) : w.OfHandling := by
  cases w with
  | updateException id columns =>
    intro hopen
    rcases h .open hopen with hstatus | hstatus <;> cases hstatus
  | insertEvent v => trivial
  | insertAudit row => trivial
  | _ => exact h.elim

/-! ### Levels -/

section

variable {o : Orchestrator} {bankCode : String}

/-- The pools of a bank come by source. -/
theorem pools_returns (bankCode : String) (range : DateRange) :
    (pools bankCode range).Returns fun found =>
      (∀ t ∈ found.1, t.source = .internal) ∧ ∀ t ∈ found.2, t.source = .external := by
  have hsource : ∀ (d : Db) source, ∀ t ∈ d.findUnmatched bankCode source range,
      t.source = source := fun d source t ht =>
    (Db.available_iff.mp (Db.mem_findUnmatched.mp ht).2).2.1
  exact fun d d' => ⟨hsource d .internal, hsource d' .external⟩

/-- A program on pools writes what a level may. -/
theorem OnPools.ofLevel {α : Type} {ok : MatchColumns → Prop}
    {internals externals : List NormalisedTransaction} {p : Prog α}
    (h : OnPools ok internals externals p) : p.Work RowWrite.OfLevel :=
  h.work.weaken (LevelWrite.weaken fun _ _ => trivial)

theorem crossCurrencyStage_work (rules : RuleStageConfig) :
    (o.crossCurrencyStage bankCode rules).Work RowWrite.OfLevel := by
  unfold Orchestrator.crossCurrencyStage
  split
  · refine Work.bind (work_pools _ _) fun found => ?_
    obtain ⟨internals, externals⟩ := found
    exact Work.bind crossCurrencyRun_onPools.ofLevel fun _ => work_pure _
  · exact work_pure _

theorem setBasedRun_ofLevel (run : Id) (range : DateRange) :
    (setBasedRun run bankCode range).Work RowWrite.OfLevel := by
  refine level_work fun d => ?_
  refine Work.bind (recordBatch_work (fun _ => True) (fun _ => trivial) (fun _ _ => trivial)
    fun _ _ => trivial) fun out => Work.bind (Work.foldlM _ _ fun k t _ => ?_) fun k =>
    Work.bind (work_require _ _) fun _ => work_pure _
  refine Work.bind (work_lockRow _) fun _ => Work.bind work_tables fun d' => ?_
  split
  · exact Work.bind (work_put.mpr rfl) fun _ => work_pure _
  · exact work_pure _

theorem fuzzyStage_ofLevel (internals externals : List NormalisedTransaction) :
    (o.fuzzyStage internals externals).Work RowWrite.OfLevel := by
  unfold Orchestrator.fuzzyStage
  split
  · exact work_pure _
  · exact fuzzyRun_onPools.ofLevel

theorem levelProgram_ofLevel (l : Level) : (l.program o bankCode).Work RowWrite.OfLevel := by
  cases l with
  | setBased =>
    refine Work.bind ?_ fun _ => work_pure _
    unfold Orchestrator.setBasedStage
    split
    · exact setBasedRun_ofLevel _ _
    · exact work_pure _
  | exact =>
    refine Work.bind (Work.bind (work_pools _ _) fun found => ?_) fun _ => work_pure _
    exact (exactRun_onPools _ found.1 found.2).ofLevel
  | crossCurrency rules => exact Work.bind (crossCurrencyStage_work rules) fun _ => work_pure _
  | group =>
    refine Work.bind ?_ fun _ => work_pure _
    unfold Orchestrator.groupStage
    split
    · rename_i rules _
      refine Work.bind (crossCurrencyStage_work rules) fun cross => ?_
      refine Work.bind_returns (work_pools _ _) (pools_returns _ _) fun found hfound => ?_
      obtain ⟨internals, externals⟩ := found
      exact Work.bind (groupRun_onPools hfound.1 hfound.2).ofLevel fun _ => work_pure _
    · exact work_pure _
  | fuzzy =>
    refine Work.bind (work_pools _ _) fun found => ?_
    obtain ⟨internals, externals⟩ := found
    exact Work.bind (fuzzyStage_ofLevel _ _) fun _ => work_pure _
  | rule =>
    refine Work.bind ?_ fun _ => work_pure _
    unfold Orchestrator.ruleStage
    split
    · refine Work.bind (work_pools _ _) fun found => ?_
      obtain ⟨internals, externals⟩ := found
      exact Work.bind ruleRun_onPools.ofLevel fun _ => work_pure _
    · exact work_pure _

theorem levelProgram_work (l : Level) : (l.program o bankCode).Work RowWrite.OfMatching :=
  (levelProgram_ofLevel l).weaken fun _ => levelWrite_ofMatching

end

/-! ### People -/

/-- A rejection releases claims, sets the status of one result and leaves an entry. -/
theorem rejectMatch_writes {W : RowWrite → Prop} (logger : AuditLogger) (id : Id)
    (reviewer reason : String) (now : Instant) (hclaim : ∀ c, W (.releaseClaim c))
    (hresult : ∀ r status reviewer, W (.resultStatus r status reviewer))
    (haudit : ∀ row, W (.insertAudit row)) : (rejectMatch logger id reviewer reason now).Work W := by
  refine Work.bind (Work.bind (work_lockRow _) fun _ => Work.bind work_tables fun d => ?_)
    fun result => Work.bind work_tables fun d => Work.bind (releaseClaims_work hclaim _) fun _ =>
      Work.bind (work_put.mpr (hresult _ _ _)) fun _ =>
      Work.bind ((logger.append_work _).weaken ?_) fun _ => work_pure _
  · split
    · exact work_fail _
    · split
      · exact work_pure _
      · exact work_fail _
  · rintro _ ⟨row, rfl⟩
    exact haudit row

theorem rejectMatch_work (logger : AuditLogger) (id : Id) (reviewer reason : String)
    (now : Instant) : (rejectMatch logger id reviewer reason now).Work RowWrite.OfMatching :=
  rejectMatch_writes _ _ _ _ _ (fun _ => trivial) (fun _ _ _ => trivial) fun _ => trivial

theorem unmatch_work (logger : AuditLogger) (id : Id) (user reason : String) (now : Instant) :
    (unmatch logger id user reason now).Work RowWrite.OfMatching := by
  refine Work.bind (work_lockRow _) fun _ => Work.bind work_tables fun d => ?_
  split
  · exact work_fail _
  · exact Work.bind (lockResults_work _) fun _ => Work.bind (work_require _ _) fun _ =>
      Work.bind work_tables fun _ => Work.bind (releaseClaims_work (fun _ => trivial) _) fun _ =>
      Work.bind work_tables fun _ => Work.bind (returnToPool_work (fun _ => nofun) _) fun _ =>
      Work.bind (rejectRows_work _ (fun _ => trivial) _) fun _ => Work.bind (append_ofMatching _ _) fun _ =>
      work_pure _

/-! ### Exceptions -/

/-- A person's change of an exception writes its row, one event and one entry. -/
theorem changeException_writes {W : RowWrite → Prop} (logger : AuditLogger) (row : ReconException)
    {columns : ExceptionColumns} (hcolumns : W (.updateException row.id columns))
    (hevent : ∀ v, W (.insertEvent v)) (haudit : ∀ row, W (.insertAudit row))
    (eventType : EventType) (principal : Principal) (action : String)
    (before after : List (PyKey × PyValue)) (rationale : String) (now : Instant) :
    (changeException logger row columns eventType principal action before after rationale now).Work
      W := by
  refine Work.bind (work_put.mpr hcolumns) fun _ => Work.bind (work_put.mpr (hevent _)) fun _ =>
    Work.bind ((logger.append_work _).weaken ?_) fun _ => work_pure _
  rintro _ ⟨entry, rfl⟩
  exact haudit entry

/-- Whatever a person does to an exception but to resolve it. -/
theorem handling_ofTriage (logger : AuditLogger) (id : Id) (principal : Principal) (now : Instant)
    {h : Handling} (hopen : ∀ body, h ≠ .resolve body) :
    (h.program logger id principal now).Work RowWrite.OfTriage := by
  have hchange : ∀ (row : ReconException) {columns : ExceptionColumns} (eventType : EventType)
      (action : String) (before after : List (PyKey × PyValue)) (rationale : String),
      (RowWrite.updateException row.id columns).OfTriage → (changeException logger row columns
        eventType principal action before after rationale now).Work RowWrite.OfTriage :=
    fun row _ _ _ _ _ _ hcolumns => changeException_writes logger row hcolumns (fun _ => trivial)
      (fun _ => trivial) _ _ _ _ _ _ _
  cases h with
  | resolve body => exact absurd rfl (hopen body)
  | assign body =>
    exact Work.bind (work_require _ _) fun _ => Work.bind (lockException_work _) fun row =>
      Work.bind (work_require _ _) fun _ => hchange row _ _ _ _ _ nofun
  | override body =>
    exact Work.bind (work_require _ _) fun _ => Work.bind (lockException_work _) fun row =>
      Work.bind (work_require _ _) fun _ => hchange row _ _ _ _ _ nofun
  | reopen body =>
    exact Work.bind (work_require _ _) fun _ => Work.bind (lockException_work _) fun row =>
      Work.bind (work_require _ _) fun _ => hchange row _ _ _ _ _ fun status hstatus =>
        .inr (Option.some.inj hstatus).symm

theorem handling_work (logger : AuditLogger) (id : Id) (principal : Principal) (now : Instant)
    (h : Handling) : (h.program logger id principal now).Work RowWrite.OfHandling := by
  by_cases hresolve : ∃ body, h = .resolve body
  · obtain ⟨body, rfl⟩ := hresolve
    refine Work.bind (work_require _ _) fun _ => Work.bind (lockException_work _) fun row =>
      Work.bind (work_require _ _) fun _ => Work.bind (work_require _ _) fun _ =>
      changeException_writes logger row ?_ (fun _ => trivial) (fun _ => trivial) _ _ _ _ _ _ _
    cases body.outcome <;> exact nofun
  · exact (handling_ofTriage logger id principal now fun body heq => hresolve ⟨body, heq⟩).weaken
      fun _ => ofTriage_ofHandling

theorem autoOutcome_ofHandling (logger : AuditLogger) (now : Instant) (e : ReconException)
    (acted : Bool) : (autoOutcome logger now e acted).Work RowWrite.OfHandling := by
  unfold autoOutcome
  split
  · exact Work.bind (work_put.mpr nofun) fun _ => Work.bind (work_put.mpr trivial) fun _ =>
      Work.bind (append_ofHandling _ _) fun _ => work_pure _
  · exact Work.bind (work_put.mpr nofun) fun _ => Work.bind (work_put.mpr trivial) fun _ =>
      Work.bind (append_ofHandling _ _) fun _ => work_pure _

theorem insertEvents_ofTriage :
    ∀ vs, (ExceptionService.insertEvents vs).Work RowWrite.OfTriage
  | [] => work_pure _
  | _ :: vs => Work.bind (work_put.mpr trivial) fun _ => insertEvents_ofTriage vs

theorem assignAll_ofTriage (queue : String) : ∀ ids, (assignAll queue ids).Work RowWrite.OfTriage
  | [] => work_pure _
  | _ :: ids => Work.bind (work_lockRow _) fun _ => Work.bind (work_put.mpr nofun) fun _ =>
      assignAll_ofTriage queue ids

theorem assignQueues_ofTriage (bankCode : String) (now : Instant) :
    ∀ queues, (assignQueues bankCode now queues).Work RowWrite.OfTriage
  | [] => work_pure _
  | _ :: rest => Work.bind (Work.bind work_tables fun _ => Work.bind (assignAll_ofTriage _ _)
      fun _ => Work.bind (insertEvents_ofTriage _) fun _ => work_pure _) fun _ =>
      Work.bind (assignQueues_ofTriage bankCode now rest) fun _ => work_pure _

/-- The scan of deadlines only triages. -/
theorem slaScan_ofTriage (logger : AuditLogger) (now : Instant) :
    (slaScan logger now).Work RowWrite.OfTriage := by
  refine Work.bind work_tables fun _ => Work.bind (lockAll_work _) fun _ =>
    Work.bind (eachRow_work (fun e => Work.bind ?_ fun _ => work_pure _) _) fun _ => work_pure _
  refine Work.bind (work_put.mpr ?_) fun _ => Work.bind (work_put.mpr trivial) fun _ =>
    Work.bind (append_ofTriage _ _) fun _ => work_pure _
  intro status hstatus
  by_cases htop : tierAfterSlaCheck e.assignedTier e.slaDeadline now = e.assignedTier
  · simp [breachColumns, htop] at hstatus
  · simp only [breachColumns, htop, if_false] at hstatus
    exact .inl (Option.some.inj hstatus).symm

/-! ### Ingestion -/

theorem persistRows_ofIntake (file : IngestionFile) :
    ∀ rows, (persistRows file rows).Work RowWrite.OfIntake
  | [] => work_pure _
  | _ :: rows => Work.bind work_newId fun _ => Work.bind (work_put.mpr trivial) fun _ =>
      persistRows_ofIntake file rows

/-- Storing the rows of a file is intake. -/
theorem ingestFile_ofIntake (p : IngestionPipeline) (up : Upload) (now : Instant) :
    (p.ingestFile up now).Work RowWrite.OfIntake := by
  refine Work.bind (work_require _ _) fun _ => Work.bind (work_ofExcept _) fun rows =>
    Work.bind (Work.bind work_tables fun d => Work.bind (work_require _ _) fun _ =>
      Work.bind work_newId fun id => Work.bind (work_lockRow _) fun _ =>
      Work.bind work_tables fun d' => Work.bind (work_require _ _) fun _ =>
      Work.bind (work_put.mpr trivial) fun _ => work_pure _) fun file =>
    Work.bind (persistRows_ofIntake _ _) fun _ => work_pure _

/-! ## Rules

What is left to show of an invariant for the operations that are put together from others.
-/

section

variable {I : Nat → Db → Prop} {logger : AuditLogger} {now : Instant}

/-- A turn of the auto-resolver keeps what its action and its closing write keep. -/
theorem autoResolveOne_keeps {e : ReconException} (hgrows : Grows (S := schema) I)
    (hhandled : ∀ n w d, RowWrite.OfHandling w → I n d → I n (w.apply d))
    (hact : (act logger e now).Keeps I) : (autoResolveOne logger now e).Keeps I := by
  refine ((hact.bind fun _ => keeps_pure true).attempt hgrows fun err => ?_).bind fun acted =>
    (Keeps.of_writes hgrows hhandled (autoOutcome_ofHandling _ _ _ _)).bind fun _ => keeps_pure _
  split
  · exact keeps_pure _
  · exact keeps_fail _

/-- Turns over a list keep what each of them keeps. -/
theorem eachRow_keeps {one : ReconException → Prog Bool} :
    ∀ es, (∀ e ∈ es, (one e).Keeps I) → (eachRow one es).Keeps I
  | [], _ => keeps_pure _
  | e :: es, h => (h e List.mem_cons_self).bind fun _ =>
      (eachRow_keeps es fun e' he' => h e' (List.mem_cons_of_mem e he')).bind fun _ => keeps_pure _

/-- A run of the auto-resolver, of which `J` says more while it works on the exceptions that it
read at its start. -/
theorem autoResolverRun_keeps {J : List ReconException → Nat → Db → Prop} {bankCode : String}
    {runId : Option Id} (hgrows : ∀ es, Grows (S := schema) (J es))
    (hhandled : ∀ es n w d, RowWrite.OfHandling w → J es n d → J es n (w.apply d))
    (hstart : ∀ n d, I n d → J (d.autoResolvable bankCode runId) n d)
    (hend : ∀ es n d, J es n d → I n d)
    (hact : ∀ es, ∀ e ∈ es, (act logger e now).Keeps (J es)) :
    (autoResolverRun logger bankCode runId now).Keeps I where
  work := (autoResolverRun_work _ _ _ _).weaken fun _ _ => trivial
  kept s hs := by
    unfold autoResolverRun
    rw [bind_eq, wp_bind, wp_tables, bind_eq, wp_bind]
    have hrows := eachRow_keeps (s.view.autoResolvable bankCode runId) fun e he =>
      autoResolveOne_keeps (hgrows _) (hhandled _) (hact _ e he)
    have hlocked : (lockAll (s.view.autoResolvable bankCode runId)).Keeps
        (J (s.view.autoResolvable bankCode runId)) := Keeps.of_reads (hgrows _) (lockAll_work _)
    refine (hlocked.kept s (hstart _ _ hs)).mono (fun _ s₁ hs₁ => ?_) fun _ _ _ => trivial
    rw [bind_eq, wp_bind]
    exact (hrows.kept s₁ hs₁).mono (fun _ _ h => hend _ _ _ h) fun _ _ _ => trivial

/-- Escalation keeps what its three parts keep. -/
theorem escalate_keeps {bankCode : String} {runId : Option Id} (hgrows : Grows (S := schema) I)
    (htriaged : ∀ n w d, RowWrite.OfTriage w → I n d → I n (w.apply d))
    (hrun : (autoResolverRun logger bankCode runId now).Keeps I) :
    (escalate logger bankCode runId now).Keeps I :=
  hrun.bind fun _ =>
    (Keeps.of_writes hgrows htriaged (assignQueues_ofTriage _ _ _)).bind fun _ =>
    (Keeps.of_writes hgrows htriaged (slaScan_ofTriage _ _)).bind fun _ => keeps_pure _

/-- What is done for its effect only. -/
theorem keeps_of_effect {α : Type} {p : Prog α}
    (h : (Store.Prog.bind p fun _ => Store.Prog.pure ()).Keeps I) : p.Keeps I where
  work := h.work.left
  kept s hs := (wp_bind.mp (h.kept s hs)).mono (fun _ _ h => h) fun _ _ h => h

/-- The stages of a run keep what every level keeps. -/
theorem execute_keeps {o : Orchestrator} {bankCode : String}
    (hlevel : ∀ l : Level, (l.program o bankCode).Keeps I) : (o.execute bankCode).Keeps I := by
  have hcount : ∀ source, (countUnmatched bankCode source o.range).Keeps I := fun source =>
    ⟨Work.bind work_tables fun _ => work_pure _, fun _ hs => hs⟩
  have hrule : (o.ruleStage bankCode).Keeps I := keeps_of_effect (hlevel .rule)
  refine (hcount _).bind fun internalTotal => (hcount _).bind fun externalTotal =>
    (keeps_of_effect (hlevel .setBased)).bind fun setBasedMatched =>
    (keeps_of_effect (hlevel .exact)).bind fun pythonExact =>
    (keeps_of_effect (hlevel .group)).bind fun groups => ?_
  have hrest : ∀ f : Option RuleMatchOutcome → Nat → OrchestratorOutcome,
      (do let rule ← o.ruleStage bankCode
          let remaining ← countUnmatched bankCode .external o.range
          return f rule remaining : Prog OrchestratorOutcome).Keeps I := fun f =>
    hrule.bind fun rule => (hcount _).bind fun remaining => keeps_pure _
  constructor
  · exact Work.bind (work_pools _ _) fun found => Work.bind ((fuzzyStage_ofLevel _ _).weaken
      fun _ _ => trivial) fun fuzzy => (hrest _).work
  · intro s hs
    have hfuzzy := wp_pools.mp (wp_bind.mp ((hlevel .fuzzy).kept s hs))
    refine wp_bind.mpr (wp_pools.mpr (wp_bind.mpr ((wp_bind.mp hfuzzy).mono ?_ fun _ _ h => h)))
    exact fun fuzzy s' hs' => (hrest _).kept s' hs'

/-- Rows are normalised and inserted one after another, each under a new identifier. -/
theorem saveMany_keeps {file : Id}
    (hrow : ∀ n d canonical raw, I n d → I (n + 1)
      ((RowWrite.insertTransaction (normalisedTransaction file canonical raw n)).apply d)) :
    ∀ pending, (saveMany file pending).Keeps I
  | [] => keeps_pure _
  | (canonical, raw) :: pending => by
    have ih := saveMany_keeps hrow pending
    constructor
    · exact Work.bind work_newId fun _ => Work.bind (work_put.mpr trivial) fun _ => ih.work
    · intro s hs
      simp only [saveMany, bind_eq, wp_bind, wp_newId, wp_put]
      apply ih.kept
      rw [Store.Session.view_write]
      exact hrow _ _ _ _ hs

/-- An upload keeps what storing, normalising and raising keep. -/
theorem process_keeps {p : IngestionPipeline} {up : Upload} (hgrows : Grows (S := schema) I)
    (hintake : ∀ n w d, RowWrite.OfIntake w → I n d → I n (w.apply d))
    (hrow : ∀ file n d canonical raw, I n d → I (n + 1)
      ((RowWrite.insertTransaction (normalisedTransaction file canonical raw n)).apply d))
    (hclassify : ∀ file, (p.classifier.classifyIngestionFile file now).Keeps I) :
    (p.process up now).Keeps I := by
  have hscan : ∀ {α : Type} {q : Prog α}, q.Work RowWrite.OfScan → q.Keeps I := fun hq =>
    Keeps.of_writes hgrows (fun n w d hw => hintake n w d (ofScan_ofIntake hw)) hq
  refine (Keeps.of_writes hgrows hintake (ingestFile_ofIntake p up now)).bind fun found => ?_
  obtain ⟨file, result⟩ := found
  refine Keeps.bind ?_ fun normalised => ?_
  · refine (Keeps.of_reads hgrows work_tables).bind fun d =>
      (Keeps.of_reads hgrows (work_ofExcept _)).bind fun rows => ?_
    exact (saveMany_keeps (hrow _) _).bind fun _ => keeps_pure _
  exact (hclassify _).bind fun classified => (hscan (scanIngestionFile_ofScan _ _ _)).bind
    fun scanned => (hscan (raiseAlerts_ofScan _ _)).bind fun surfaced =>
    (Keeps.of_reads hgrows work_tables).bind fun d => (hscan (raiseAlerts_ofScan _ _)).bind fun repeated =>
    (hscan (append_ofScan _ _)).bind fun _ => (hscan (append_ofScan _ _)).bind fun _ =>
    keeps_pure _

end

end Recon
