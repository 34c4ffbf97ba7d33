import ReconEngine.Audit.Anchor
import ReconEngine.Store.Protocol

/-!
# The audit trail under concurrency

Every service writes its audit entries through `AuditLogger.append`, inside its own transaction
and next to its other writes. `Audited` says so of a program, with any commits, rollbacks and
savepoints around the appends. Any number of such clients may run over one store in any
interleaving, and any of them may be lost at any moment.

The advisory lock of a chain makes this safe: a transaction that has written to a chain holds its
lock, so that the head it has read stays the head until it ends. What it has not committed is
therefore a continuation of the committed chain, at every moment.

**The law** (`chains_verify`): in every state of every run, the committed chain of each name
verifies.

**What it does not establish.** That an entry is true. A service appends what it is about to write
in the same transaction; that it writes just that is said of each service where it is modelled.
-/

set_option autoImplicit false

namespace Recon

open Store HashChain

/-- The write adds no audit entry. -/
def RowWrite.LeavesAudit (w : RowWrite) : Prop := ∀ row, w ≠ .insertAudit row

/-- A client whose audit entries are all written by the logger. -/
inductive Audited (logger : AuditLogger) : {α : Type} → Prog α → Prop
  | work {α : Type} {p : Prog α} (h : p.Work RowWrite.LeavesAudit) : Audited logger p
  | append (e : AuditEvent) : Audited logger (logger.append e)
  | bind {α β : Type} {p : Prog α} {f : α → Prog β} (hp : Audited logger p)
      (hf : ∀ a, Audited logger (f a)) : Audited logger (p.bind f)
  | savepoint {α : Type} {p : Prog α} {handler : ReconError → Prog α} (hp : Audited logger p)
      (hwork : p.Work fun _ => True) (hh : ∀ e, Audited logger (handler e)) :
      Audited logger (p.attempt handler)
  | commit : Audited logger Prog.commitNow
  | rollback : Audited logger Prog.rollbackNow

/-! ## What a transaction has written to a chain -/

/-- The log has an entry of the chain. -/
def Touched (chainId : String) (log : List RowWrite) : Prop :=
  ∃ row, .insertAudit row ∈ log ∧ row.chainId = chainId

/-- The two stores hold the same entries of the chain. -/
def SameChain (chainId : String) (d d' : Db) : Prop :=
  d.audit.filter (·.chainId = chainId) = d'.audit.filter (·.chainId = chainId)

/-- Stores with the same entries of a name have the same chain. -/
theorem SameChain.chain {chainId : String} {d d' : Db} (h : SameChain chainId d d') :
    d.chain chainId = d'.chain chainId := by
  unfold Db.chain
  rw [h]

/-- Writes to other tables leave the trail as it is. -/
theorem audit_apply {w : RowWrite} (h : w.LeavesAudit) (d : Db) : (w.apply d).audit = d.audit := by
  cases w with
  | insertAudit row => exact absurd rfl (h row)
  | _ => rfl

/-- A write that is no entry of the chain leaves the chain as it is. -/
theorem sameChain_apply {chainId : String} {w : RowWrite}
    (h : ∀ row, w = .insertAudit row → row.chainId ≠ chainId) (d : Db) :
    SameChain chainId d (w.apply d) := by
  by_cases hw : w.LeavesAudit
  · rw [SameChain, audit_apply hw]
  · simp only [RowWrite.LeavesAudit, not_forall, not_not] at hw
    obtain ⟨row, rfl⟩ := hw
    show _ = (d.audit ++ [row]).filter _
    rw [List.filter_append]
    simp [h row rfl]

/-- Writes act alike on stores with the same chain. -/
theorem SameChain.apply {chainId : String} {d d' : Db} (h : SameChain chainId d d')
    (w : RowWrite) : SameChain chainId (w.apply d) (w.apply d') := by
  by_cases hw : w.LeavesAudit
  · rw [SameChain, audit_apply hw, audit_apply hw]
    exact h
  · simp only [RowWrite.LeavesAudit, not_forall, not_not] at hw
    obtain ⟨row, rfl⟩ := hw
    show (d.audit ++ [row]).filter _ = (d'.audit ++ [row]).filter _
    rw [List.filter_append, List.filter_append, h]

/-- Whatever is written on top, it is written to both. -/
theorem SameChain.replay {chainId : String} (log : List RowWrite) {d d' : Db}
    (h : SameChain chainId d d') :
    SameChain chainId (schema.replay log d) (schema.replay log d') := by
  induction log generalizing d d' with
  | nil => exact h
  | cons w log ih => exact ih (h.apply w)

/-- A log that does not touch a chain leaves it. -/
theorem sameChain_replay {chainId : String} {log : List RowWrite} (h : ¬ Touched chainId log)
    (d : Db) : SameChain chainId d (schema.replay log d) := by
  induction log generalizing d with
  | nil => rfl
  | cons w log ih =>
    have hw : ∀ row, w = .insertAudit row → row.chainId ≠ chainId :=
      fun row hrow hc => h ⟨row, hrow ▸ List.mem_cons_self, hc⟩
    have hlog : ¬ Touched chainId log :=
      fun ⟨row, hrow, hc⟩ => h ⟨row, List.mem_cons_of_mem w hrow, hc⟩
    exact (sameChain_apply hw d).trans (ih hlog (w.apply d))

/-- Writes outside the audit table touch no chain. -/
theorem touched_append {chainId : String} {log ws : List RowWrite}
    (hws : ∀ w ∈ ws, w.LeavesAudit) :
    Touched chainId (log ++ ws) ↔ Touched chainId log := by
  constructor
  · rintro ⟨row, hrow, hc⟩
    rcases List.mem_append.mp hrow with h | h
    · exact ⟨row, h, hc⟩
    · exact absurd rfl (hws _ h row)
  · rintro ⟨row, hrow, hc⟩
    exact ⟨row, List.mem_append_left ws hrow, hc⟩

/-! ## The protocol -/

variable (sha256 : Sha256)

/-- The lock of a chain protects its entries; every committed chain is well chained. -/
def trail : Protocol schema where
  agree l d d' := match l with
    | .chain chainId => SameChain chainId d d'
    | _ => True
  same _ _ _ := True
  inv _ d := ∀ chainId, WellChained sha256 (Db.chain d chainId)
  writes _ _ := True
  moves _ _ := True
  agree_refl l d := by cases l <;> trivial
  agree_trans l d d' d'' h h' := by
    cases l with
    | chain chainId => exact Eq.trans h h'
    | _ => trivial
  same_refl _ _ := trivial
  same_trans _ _ _ _ _ _ := trivial
  inv_mono _ _ _ _ h := h

/-- What an open transaction keeps: it holds the lock of each chain it has written to, and the
chain is well chained with what it has written. -/
def Continues (k : Local schema) : Prop :=
  ∀ chainId, Touched chainId k.log →
    .chain chainId ∈ k.held ∧ WellChained sha256 (Db.chain (schema.replay k.log k.db) chainId)

variable {sha256}

/-- Other clients cannot break a chain the transaction has written to. -/
theorem Continues.later {k : Local schema} (hk : Continues sha256 k) {n : Nat} {d : Db}
    (h : (trail sha256).Later k n d) (marks : List Mark) (m : Nat) :
    Continues sha256 { k with marks := marks, supply := m, db := d } := by
  intro chainId ht
  obtain ⟨hheld, hwell⟩ := hk chainId ht
  have hsame : SameChain chainId k.db d := h.agree _ hheld
  exact ⟨hheld, (hsame.replay k.log).chain ▸ hwell⟩

/-- A transaction reads every chain well chained. -/
theorem Continues.view {k : Local schema} (hk : Continues sha256 k) {n : Nat} {d : Db}
    (h : (trail sha256).Later k n d) (chainId : String) :
    WellChained sha256 (Db.chain (schema.replay k.log d) chainId) := by
  by_cases ht : Touched chainId k.log
  · exact (hk.later h k.marks n chainId ht).2
  · exact (sameChain_replay ht d).chain ▸ h.inv chainId

/-- Work outside the audit table keeps every chain of the transaction. -/
theorem Continues.extends {k k' : Local schema} (hk : Continues sha256 k)
    (h : (trail sha256).Extends RowWrite.LeavesAudit k k') : Continues sha256 k' := by
  obtain ⟨⟨ls, hheld⟩, ⟨ws, hlog, hws⟩, hagree⟩ := h
  intro chainId ht
  rw [hlog, touched_append hws] at ht
  obtain ⟨hmem, hwell⟩ := hk chainId ht
  have hnone : ¬ Touched chainId ws := by
    rintro ⟨row, hrow, -⟩
    exact hws _ hrow row rfl
  have hsame : SameChain chainId k.db k'.db := hagree _ hmem
  refine ⟨hheld ▸ List.mem_append_right ls hmem, ?_⟩
  rw [hlog, Schema.replay_append, ← (sameChain_replay hnone _).chain, ← (hsame.replay k.log).chain]
  exact hwell

/-- A failed savepoint leaves the chains as they were before it. -/
theorem Continues.restored {k k' : Local schema} (hk : Continues sha256 k)
    (h : (trail sha256).Extends (fun _ => True) k k') :
    Continues sha256 { k' with held := k.held, log := k.log } := by
  intro chainId ht
  obtain ⟨hmem, hwell⟩ := hk chainId ht
  have hsame : SameChain chainId k.db k'.db := h.agree _ hmem
  exact ⟨hmem, (hsame.replay k.log).chain ▸ hwell⟩

/-- Committing what the transaction has written keeps every chain well chained, and leaves the
chains it has not locked alone. -/
theorem Continues.commits {k : Local schema} (hk : Continues sha256 k) {n : Nat} {d : Db}
    (h : (trail sha256).Later k n d) :
    (∀ l, l ∉ k.held → (trail sha256).agree l d (schema.replay k.log d)) ∧
      (trail sha256).inv n (schema.replay k.log d) := by
  refine ⟨fun l hl => ?_, fun chainId => hk.view h chainId⟩
  cases l with
  | chain chainId => exact sameChain_replay (fun ht => hl (hk chainId ht).1) d
  | _ => trivial

/-- What an append goes on with once it has read the head of the chain. -/
def AuditLogger.appendTo (logger : AuditLogger) (e : AuditEvent) (eventId : Id)
    (head : Option AuditLog) : Prog AuditLog :=
  match computeHash logger.sha256.hexdigest (e.entry eventId head) with
  | .error err => .fail err
  | .ok hash => do
    let row := (e.entry eventId head).row hash
    Prog.put (.insertAudit row)
    pure row

/-- One append follows the protocol: the entry it writes continues the chain it has locked. -/
theorem append_follows (logger : AuditLogger) (e : AuditEvent) {k : Local schema}
    (hk : Continues logger.sha256 k) :
    (trail logger.sha256).Follows (logger.append e) (fun _ k' => Continues logger.sha256 k')
      (fun _ k' => Continues logger.sha256 k') k := by
  unfold AuditLogger.append
  simp only [Prog.bind_eq]
  refine Protocol.Follows.bind ?_
  unfold Prog.require
  split
  swap
  · exact hk
  refine Protocol.Follows.bind ?_
  split
  swap
  · exact hk
  rename_i haware
  intro n₁ d₁ h₁
  have hlocked : Continues logger.sha256
      { k with held := .chain e.chainId :: k.held, supply := n₁, db := d₁ } := fun chainId ht =>
    ⟨List.mem_cons_of_mem _ (hk chainId ht).1, (hk.later h₁ k.marks n₁ chainId ht).2⟩
  intro n₂ d₂ h₂ n₃ d₃ h₃
  have hk₂ := hlocked.later h₂ k.marks n₂
  -- The chain the head was read from is still there: its lock is held.
  have hread : SameChain e.chainId d₂ d₃ := h₃.agree (.chain e.chainId) List.mem_cons_self
  have hview := hk₂.view h₃ e.chainId
  have hsame := (hread.replay k.log).chain
  show (trail logger.sha256).Follows
    (logger.appendTo e n₃ (Db.chain (schema.replay k.log d₂) e.chainId).getLast?) _ _ _
  unfold AuditLogger.appendTo
  cases hhash : computeHash logger.sha256.hexdigest
      (e.entry n₃ (Db.chain (schema.replay k.log d₂) e.chainId).getLast?) with
  | error err => exact hk₂.later h₃ _ _
  | ok hash =>
    refine ⟨fun _ _ _ => trivial, ?_⟩
    rw [hsame] at hhash ⊢
    obtain ⟨hchain, hwell⟩ := entry_chained hview haware hhash
    intro chainId ht
    show _ ∧ WellChained _ (Db.chain (schema.replay (k.log ++ [_]) d₃) chainId)
    rw [Schema.replay_append]
    by_cases hc : chainId = e.chainId
    · subst hc
      exact ⟨List.mem_cons_self, hchain ▸ hwell⟩
    · have hold : Touched chainId k.log := by
        obtain ⟨row, hrow, rfl⟩ := ht
        rcases List.mem_append.mp hrow with hmem | hmem
        · exact ⟨row, hmem, rfl⟩
        · cases List.mem_singleton.mp hmem
          exact absurd rfl hc
      obtain ⟨hheld, hkept⟩ := hk₂.later h₃ k.marks n₃ chainId hold
      refine ⟨hheld, ?_⟩
      have hother : SameChain chainId (schema.replay k.log d₃)
          (RowWrite.apply (.insertAudit
            ((e.entry n₃ (Db.chain (schema.replay k.log d₃) e.chainId).getLast?).row hash))
            (schema.replay k.log d₃)) := by
        refine sameChain_apply ?_ _
        intro row hrow
        cases hrow
        exact Ne.symm hc
      exact hother.chain ▸ hkept

/-- Every audited client keeps to the protocol. -/
theorem Audited.follows {logger : AuditLogger} {α : Type} {p : Prog α} (h : Audited logger p)
    {k : Local schema} (hk : Continues logger.sha256 k) :
    (trail logger.sha256).Follows p (fun _ k' => Continues logger.sha256 k')
      (fun _ k' => Continues logger.sha256 k') k := by
  induction h generalizing k with
  | work h =>
    have hfollows := Protocol.Follows.work (P := trail logger.sha256) h (fun _ _ _ => trivial) k
    exact (hfollows.extends h).mono (fun _ _ hq => hk.extends hq.2) fun _ _ he => hk.extends he.2
  | append e => exact append_follows logger e hk
  | bind hp hf ihp ihf =>
    exact ((ihp hk).mono (fun a _ hk' => ihf a hk') fun _ _ he => he).bind
  | savepoint hp hwork hh ihp ihh =>
    refine Protocol.Follows.attempt hwork ((ihp hk).mono (fun _ _ hq => hq) ?_)
    exact fun e k' _ hext => ihh e (hk.restored hext)
  | commit =>
    intro n d hl
    obtain ⟨hagree, hinv⟩ := hk.commits hl
    exact ⟨hagree, hinv, trivial, fun _ ht => absurd ht fun ⟨_, hrow, _⟩ => List.not_mem_nil hrow⟩
  | rollback => exact fun _ ht => absurd ht fun ⟨_, hrow, _⟩ => List.not_mem_nil hrow

/-! ## Verification -/

/-- Without an expected head, verification accepts exactly the well-chained chains. -/
theorem verifyChain_none_iff {sha256 : Sha256} {d : Db} {chainId : String} :
    (verifyChain sha256 d chainId none).ok = true ↔ WellChained sha256 (d.chain chainId) := by
  unfold verifyChain
  cases hv : verifyRows sha256 (d.chain chainId) 1 none 0 with
  | error failure =>
    constructor
    · intro h
      rw [verifyRows_error_ok hv] at h
      cases h
    · rintro ⟨hnum, hlink⟩
      rw [verifyRows_ok_iff.mpr ⟨hnum, hlink, rfl, rfl, rfl⟩] at hv
      cases hv
  | ok result =>
    obtain ⟨n, p, k⟩ := result
    obtain ⟨hnum, hlink, -⟩ := verifyRows_ok_iff.mp hv
    exact ⟨fun _ => ⟨hnum, hlink⟩, fun _ => rfl⟩

/-- A system of clients that have not started yet. -/
structure Starts (logger : AuditLogger) (s : System schema) : Prop where
  audited : ∀ c ∈ s.clients, Audited logger c.prog
  fresh : ∀ c ∈ s.clients, c.held = [] ∧ c.marks = [] ∧ c.log = []
  verifies : ∀ chainId, (verifyChain logger.sha256 s.db chainId none).ok = true

/-- Clients that have done nothing yet are ready. -/
theorem Starts.ready {logger : AuditLogger} {s : System schema} (h : Starts logger s) :
    (trail logger.sha256).Ready s := by
  have hinv : (trail logger.sha256).inv s.supply s.db := fun chainId =>
    verifyChain_none_iff.mp (h.verifies chainId)
  refine ⟨hinv, ?_, ?_⟩
  · rintro i j l ⟨c, hc, hl⟩
    rw [(h.fresh c (List.mem_of_getElem? hc)).1] at hl
    exact absurd hl List.not_mem_nil
  · intro i c hc
    have hmem := List.mem_of_getElem? hc
    obtain ⟨hheld, hmarks, hlog⟩ := h.fresh c hmem
    refine ⟨s.supply, s.db, Protocol.Later.refl hinv, ?_⟩
    refine ((h.audited c hmem).follows ?_).mono (fun _ _ _ => trivial) fun _ _ _ => trivial
    intro chainId ht
    obtain ⟨row, hrow, -⟩ := ht
    rw [hlog] at hrow
    exact absurd hrow List.not_mem_nil

/-- **Every chain verifies.** Whatever the interleaving of the clients, their commits, rollbacks
and losses, every committed chain is numbered from one, linked and correctly hashed, and the
verifier accepts it. -/
theorem chains_verify (logger : AuditLogger) (s s' : System schema) (es : List Event)
    (hs : Starts logger s) (hrun : s.run es = some s') (chainId : String) :
    (verifyChain logger.sha256 s'.db chainId none).ok = true ∧
      Numbered 1 (Db.chain s'.db chainId) ∧
      Linked (auditReading logger.sha256) none (Db.chain s'.db chainId) := by
  have hready := hs.ready.run es (System.stable_of_same (fun _ _ _ => trivial) es s) hrun
  have hwell : WellChained logger.sha256 (Db.chain s'.db chainId) := hready.inv chainId
  exact ⟨verifyChain_none_iff.mpr hwell, hwell.numbered, hwell.linked⟩

/-! Three clients that each add a state change to the runs chain. The first is lost before it
commits; the other two entries are numbered one and two. -/

def stateChanges : System schema where
  db := {}
  supply := 0
  clients := List.replicate 3 { prog := (stateChangeLogger.append stateChange).bind fun _ => .commitNow }

def stateChangeSchedule : List Event :=
  List.replicate 4 (.run 0) ++ [.kill 0] ++ List.replicate 5 (.run 1) ++ List.replicate 5 (.run 2)

theorem stateChangeSchedule_runs : (stateChanges.run stateChangeSchedule).isSome = true := by
  decide +kernel

theorem stateChanges_starts : Starts stateChangeLogger stateChanges where
  audited c hc := by
    rw [List.eq_of_mem_replicate hc]
    exact .bind (.append stateChange) fun _ => .commit
  fresh c hc := by
    rw [List.eq_of_mem_replicate hc]
    exact ⟨rfl, rfl, rfl⟩
  verifies chainId := verifyChain_none_iff.mpr ⟨trivial, trivial⟩

theorem chains_verify_stateChanges :
    (verifyChain stateChangeDigests ((stateChanges.run stateChangeSchedule).get
      stateChangeSchedule_runs).db runsChain none).ok = true ∧
      Numbered 1 (Db.chain ((stateChanges.run stateChangeSchedule).get
        stateChangeSchedule_runs).db runsChain) ∧
      Linked (auditReading stateChangeDigests) none (Db.chain ((stateChanges.run
        stateChangeSchedule).get stateChangeSchedule_runs).db runsChain) :=
  chains_verify stateChangeLogger stateChanges _ stateChangeSchedule stateChanges_starts
    (Option.some_get stateChangeSchedule_runs).symm runsChain

end Recon
