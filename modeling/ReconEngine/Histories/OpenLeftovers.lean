import ReconEngine.Histories.Shelving

/-!
# Leftovers in open exceptions

A run classifies what matching has left: each leftover is what the key of some exception is about,
of a new one or of one that was there. A new exception is open. One that was there may be closed,
and then nobody looks at the leftover again. **After a run every leftover is in an open exception,
as long as no match is undone that a closed exception is about**: what such an exception is about is
out of the pool, and only undoing a match brings it back.

Without that condition the law fails, because a key is never free again. The auto-resolver matches a
pair, a person undoes the match, and the next run finds the key of the pair taken.

**What it does not establish.** An exception that names a leftover need not have the category that a
fresh analysis would give it: a key that exists is kept with what was written under it. Nor does the
law say when a person gets to the exception.
-/

set_option autoImplicit false

namespace Recon

open Store (Committed)
open Store.Prog hiding pure bind

/-! ## Leftovers -/

/-- The transaction is UNMATCHED, holds no ACTIVE claim and is of the bank. -/
def Db.InPool (d : Db) (bankCode : String) (id : Id) : Prop :=
  ∃ t ∈ d.transactions, t.id = id ∧ t.bankCode = bankCode ∧ t.matchStatus = .unmatched ∧
    d.isClaimed id = false

/-- Every leftover of the bank is named by an open exception. -/
def Db.LeftoversNamed (d : Db) (bankCode : String) : Prop :=
  ∀ id, d.InPool bankCode id →
    ∃ e ∈ d.exceptions, e.status.isOpen = true ∧ id ∈ e.affectedRecords.transactions

/-- Every leftover of the bank is what the key of an exception is about. -/
def Db.Reported (d : Db) (bankCode : String) : Prop :=
  ∀ id, d.InPool bankCode id → ∃ e ∈ d.exceptions, id ∈ e.dedupeKey.subjects

/-- What is reported is named where what was settled is out of the pool. -/
theorem Shelved.leftoversNamed {d : Db} {bankCode : String} (h : Shelved d)
    (hreported : d.Reported bankCode) : d.LeftoversNamed bankCode := by
  intro id hpool
  obtain ⟨e, he, hid⟩ := hreported id hpool
  refine ⟨e, he, ?_, (h.filed e he).named id hid⟩
  by_contra hclosed
  obtain ⟨t, ht, heq, -, hunmatched, -⟩ := hpool
  exact h.away e he (Bool.eq_false_iff.mpr hclosed) id hid t ht heq hunmatched

/-! ## Writes that add no leftover -/

/-- The write puts nothing into the pool and releases no claim. -/
def RowWrite.FreesNone : RowWrite → Prop
  | .releaseClaim _ => False
  | w => w.LeavesPool

/-- A transaction that is in the pool after an update of rows was there before. -/
theorem inPool_of_update {d : Db} {ids : List Id}
    {f : NormalisedTransaction → NormalisedTransaction}
    (hf : ∀ t, (f t).matchStatus ≠ .unmatched) {bankCode : String} {id : Id}
    (h : (d.updateTransaction ids f).InPool bankCode id) : d.InPool bankCode id := by
  obtain ⟨t', ht', hid, hbank, hunmatched, hfree⟩ := h
  obtain ⟨t, ht, rfl⟩ := Store.mem_updateIn.mp ht'
  by_cases hin : t.id ∈ ids
  · rw [if_pos hin] at hunmatched
    exact absurd hunmatched (hf t)
  · rw [if_neg hin] at hid hbank hunmatched
    exact ⟨t, ht, hid, hbank, hunmatched, hfree⟩

/-- Where nothing is freed, what is in the pool was there before. -/
theorem inPool_before {w : RowWrite} (hw : w.FreesNone) {d : Db} {bankCode : String} {id : Id}
    (h : (w.apply d).InPool bankCode id) : d.InPool bankCode id := by
  cases w with
  | insertTransaction t => exact hw.elim
  | releaseClaim c => exact hw.elim
  | transactionStatus i status =>
    exact inPool_of_update (f := fun t => { t with matchStatus := status }) (fun _ => hw) h
  | voidTransaction i original =>
    exact inPool_of_update
      (f := fun t => { t with matchStatus := .voided, voidedOriginalId := some original })
      (fun _ => nofun) h
  | insertClaim c =>
    obtain ⟨t, ht, hid, hbank, hunmatched, hfree⟩ := h
    refine ⟨t, ht, hid, hbank, hunmatched, ?_⟩
    rw [Db.isClaimed_eq_false] at hfree ⊢
    exact fun c' hc' => hfree c' (List.mem_append_left _ hc')
  | claimResult c r =>
    obtain ⟨t, ht, hid, hbank, hunmatched, hfree⟩ := h
    refine ⟨t, ht, hid, hbank, hunmatched, ?_⟩
    rw [Db.isClaimed_eq_false] at hfree ⊢
    intro c' hc' hactive heq
    have hclaim : (if c'.id ∈ [c] then { c' with matchResultId := some r } else c').status =
        c'.status ∧ (if c'.id ∈ [c] then { c' with matchResultId := some r } else
          c').normalisedTransactionId = c'.normalisedTransactionId := by
      split <;> exact ⟨rfl, rfl⟩
    exact hfree _ (List.mem_map_of_mem hc') (hclaim.1.trans hactive) (hclaim.2.trans heq)
  | _ => exact h

/-- No key goes. -/
theorem keys_kept (w : RowWrite) {d : Db} {e : ReconException} (he : e ∈ d.exceptions) :
    ∃ e' ∈ (w.apply d).exceptions, e'.dedupeKey = e.dedupeKey := by
  cases w with
  | insertException new => exact ⟨e, List.mem_append_left _ he, rfl⟩
  | updateException id columns =>
    refine ⟨_, List.mem_map_of_mem he, ?_⟩
    split <;> rfl
  | _ => exact ⟨e, he, rfl⟩

theorem reported_apply {w : RowWrite} (hw : w.FreesNone) {d : Db} {bankCode : String}
    (h : d.Reported bankCode) : (w.apply d).Reported bankCode := by
  intro id hpool
  obtain ⟨e, he, hid⟩ := h id (inPool_before hw hpool)
  obtain ⟨e', he', hkey⟩ := keys_kept w he
  exact ⟨e', he', hkey ▸ hid⟩

theorem reported_grows (bankCode : String) :
    Grows (S := schema) fun _ (d : Db) => d.Reported bankCode := fun _ _ _ _ h => h

theorem reported_of_work {α : Type} {p : Prog α} (hp : p.Work RowWrite.FreesNone)
    (bankCode : String) : p.Keeps fun _ (d : Db) => d.Reported bankCode :=
  Keeps.of_writes (reported_grows bankCode) (fun _ _ _ hw h => reported_apply hw h) hp

theorem ofCreation_freesNone {w : RowWrite} (h : w.OfCreation) : w.FreesNone := by
  cases w <;> first
    | exact h.elim
    | trivial

theorem ofHandling_freesNone {w : RowWrite} (h : w.OfHandling) : w.FreesNone := by
  cases w <;> first
    | exact h.elim
    | trivial

/-- An action of the auto-resolver frees nothing, since it settles or voids. -/
theorem ofAction_freesNone {w : RowWrite} (h : w.OfAction) : w.FreesNone := by
  rcases h with (h | ⟨a, rfl⟩) | ⟨id, original, rfl⟩
  · cases w with
    | transactionStatus id status =>
      obtain rfl : status = .matched := h
      exact nofun
    | releaseClaim c => exact h.elim
    | insertTransaction t => exact h.elim
    | _ => trivial
  · trivial
  · trivial

/-! ## A run -/

/-- A run of a bank without a date range; `today` is the day of `now`. -/
structure WholeRun where
  orchestrator : Orchestrator
  classifier : ExceptionClassifier
  bankCode : String
  now : Instant
  today : Date
  staleAfterDays : Option Int
  whole : orchestrator.range = {}

namespace WholeRun

variable (r : WholeRun)

def classify : Prog ClassifierOutcome :=
  r.classifier.classifyRun r.bankCode r.orchestrator.run r.now
    (r.staleAfterDays.map fun _ => r.today) r.staleAfterDays r.orchestrator.range

/-- What `RunService.execute` does to transactions, matches and exceptions. -/
def program : Prog Unit := do
  let _ ← r.orchestrator.execute r.bankCode
  let _ ← r.classify
  let _ ← escalate r.classifier.logger r.bankCode (some r.orchestrator.run) r.now

theorem execute_shelf : (r.orchestrator.execute r.bankCode).Keeps Shelf :=
  execute_keeps fun l => by
    have hbooked := (Operation.level r.orchestrator r.bankCode l).booked
    exact hbooked.and (shelved_of_work ((levelProgram_ofLevel l).weaken
      fun _ => ofLevel_leavesShelf))

theorem classify_booked : r.classify.Keeps Booked :=
  (classifyRun_traced _ _ _ _ _ _ _).and (classifyRun_posted _ _ _ _ _ _ _)

/-- After the classification of a run without a range every leftover is reported. -/
theorem classify_reported {s : Session} (hs : Shelf s.supply s.view) :
    r.classify.wp (fun _ s' => s'.view.Reported r.bankCode) (fun _ _ => True) s := by
  unfold classify ExceptionClassifier.classifyRun
  rw [bind_eq, wp_bind]
  have hwork := classifyUnmatched_work r.classifier r.bankCode r.orchestrator.run r.now
    (r.staleAfterDays.map fun _ => r.today) r.staleAfterDays r.orchestrator.range
  have hkeeps := Work.wp_keeps (f := fun d : Db => (d.transactions, d.claims)) (fun w d hw => by
    cases w with
    | insertException e => rfl
    | insertEvent e => rfl
    | insertAudit row => rfl
    | _ => exact hw.elim) hwork s
  refine ((classifyUnmatched_shelved _ _ _ _ _ _ _ hs.2).and hkeeps).mono ?_ fun _ _ _ => trivial
  rintro _ s₁ ⟨⟨-, cs, hcs, hkeys⟩, -, hsame⟩
  obtain ⟨ht, hc⟩ := Prod.mk.inj hsame
  obtain ⟨hleftover, -, hnames⟩ := leftoverCandidates_names hs.1.1.1.ledger.transactionIds hcs
  have hreported : s₁.view.Reported r.bankCode := by
    rintro id ⟨t, hmem, rfl, hbank, hunmatched, hfree⟩
    have hleft : s.view.IsLeftover r.bankCode r.orchestrator.range t := by
      refine ⟨ht ▸ hmem, hbank, hunmatched, ?_, ?_⟩
      · unfold Db.isClaimed at hfree ⊢
        exact hc ▸ hfree
      · rw [r.whole]
        rfl
    obtain ⟨c, hcmem, hname⟩ := List.mem_flatMap.mp (hnames t hleft)
    obtain ⟨e, he, hkey⟩ := hkeys c hcmem
    refine ⟨e, he, ?_⟩
    rw [hkey, ← (hleftover c hcmem).1]
    exact hname
  have hrest : ∀ candidates : Db → Except ReconError (List Candidate),
      (r.classifier.classifyWith candidates r.orchestrator.run r.now).Keeps
        fun _ (d : Db) => d.Reported r.bankCode := fun candidates =>
    reported_of_work ((classifyWith_work _ _ _ _).weaken fun _ => ofCreation_freesNone) _
  exact ((hrest _).bind fun _ => (hrest _).bind fun _ => (hrest _).bind fun _ =>
    keeps_pure _).kept s₁ hreported

/-- Auto-resolution, queues and deadlines keep the leftovers reported. -/
theorem escalate_reported :
    (escalate r.classifier.logger r.bankCode (some r.orchestrator.run) r.now).Keeps
      fun _ (d : Db) => d.Reported r.bankCode := by
  have hgrows := reported_grows r.bankCode
  refine escalate_keeps hgrows
    (fun _ _ _ hw h => reported_apply (ofHandling_freesNone (ofTriage_ofHandling hw)) h) ?_
  exact autoResolverRun_keeps (J := fun _ _ (d : Db) => d.Reported r.bankCode) (fun _ => hgrows)
    (fun _ _ _ _ hw h => reported_apply (ofHandling_freesNone hw) h) (fun _ _ h => h)
    (fun _ _ _ h => h)
    fun _ e _ => reported_of_work ((act_ofAction _ _ _).weaken fun _ => ofAction_freesNone) _

/-- A run keeps what was settled out of the pool, and leaves every leftover in an open exception. -/
theorem program_names {s : Session} (hs : Shelf s.supply s.view) :
    r.program.wp (fun _ s' => Shelf s'.supply s'.view ∧ s'.view.LeftoversNamed r.bankCode)
      (fun _ _ => True) s := by
  have hshelved : r.classify.Keeps fun _ => Shelved := classifyRun_shelved _ _ _ _ _ _ _
  unfold program
  rw [bind_eq, wp_bind]
  refine (r.execute_shelf.kept s hs).mono ?_ fun _ _ _ => trivial
  intro _ s₁ h₁
  rw [bind_eq, wp_bind]
  refine (((r.classify_booked.and hshelved).kept s₁ h₁).and (r.classify_reported h₁)).mono ?_
    fun _ _ _ => trivial
  rintro _ s₂ ⟨h₂, hreported⟩
  rw [bind_eq, wp_bind]
  refine (((escalate_shelf _ _ _ _).kept s₂ h₂).and (r.escalate_reported.kept s₂ hreported)).mono ?_
    fun _ _ _ => trivial
  rintro _ s₃ ⟨h₃, hreported'⟩
  exact ⟨h₃, h₃.2.leftoversNamed hreported'⟩

theorem program_work : r.program.Work fun _ => True :=
  Work.bind r.execute_shelf.work fun _ => Work.bind r.classify_booked.work fun _ =>
    Work.bind (escalate_shelf _ _ _ _).work fun _ => work_pure _

end WholeRun

/-! ## Histories -/

/-- What happens in a history: an operation, or a run as a whole. -/
inductive Happening where
  | operation (op : Operation)
  | run (r : WholeRun)

def Happening.program : Happening → Prog Unit
  | .operation op => op.program
  | .run r => r.program

/-- Requests for what happens, one after another. -/
def happen (c : Committed schema) (history : List Happening) : Committed schema :=
  c.history Happening.program history

/-- No person resolves an exception or writes it off. -/
def Happening.ClosesNone : Happening → Prop
  | .operation (.handle _ _ _ _ h) => ∀ body, h ≠ .resolve body
  | _ => True

/-- No match is undone that a closed exception is about. -/
def Happening.UndoesNoneSettled (d : Db) : Happening → Prop
  | .operation (.unmatch _ id _ _ _) => d.SparesSettled id
  | _ => True

theorem Happening.work (x : Happening) : x.program.Work fun _ => True := by
  cases x with
  | operation op => exact op.booked.work
  | run r => exact r.program_work

/-- What happens keeps the shelf, unless a person closes an exception or undoes what was settled. -/
theorem Happening.shelf {x : Happening} {c : Committed schema} (hc : Shelf c.supply c.db)
    (hcloses : x.ClosesNone) (hundoes : x.UndoesNoneSettled c.db) :
    Shelf (c.serve x.program).supply (c.serve x.program).db := by
  have hwp : x.program.wp (fun _ s' => Shelf s'.supply s'.view) (fun _ _ => True) c.session := by
    cases x with
    | operation op =>
      refine op.shelf (s := c.session) hc ?_
      cases op with
      | handle logger id principal now h => exact hcloses
      | unmatch logger id user reason now => exact hundoes
      | _ => trivial
    | run r =>
      exact (r.program_names (s := c.session) hc).mono (fun _ _ h => h.1) fun _ _ _ => trivial
  rcases wp.serve x.work hwp with h | ⟨hsame, hsupply⟩
  · exact h
  · rw [hsame]
    exact shelf_grows _ _ _ hsupply hc

/-- What was settled is out of the pool after every history that leaves it there. -/
theorem happen_shelf {c : Committed schema} (hc : Shelf c.supply c.db) :
    ∀ {history : List Happening}, (∀ x ∈ history, x.ClosesNone) →
      (∀ before x after, history = before ++ x :: after →
        x.UndoesNoneSettled (happen c before).db) →
        Shelf (happen c history).supply (happen c history).db := by
  intro history
  induction history generalizing c with
  | nil => exact fun _ _ => hc
  | cons x history ih =>
    intro hcloses hundoes
    refine ih (x.shelf hc (hcloses x List.mem_cons_self) (hundoes [] x history rfl))
      (fun y hy => hcloses y (List.mem_cons_of_mem x hy)) fun before y after heq => ?_
    exact hundoes (x :: before) y after (congrArg (x :: ·) heq)

/-- Nothing is settled before the first exception. -/
theorem Unbooked.shelf {c : Committed schema} (h : Unbooked c) : Shelf c.supply c.db where
  left := operate_booked h []
  right := by
    constructor
    · simp [h.exceptions]
    · simp [h.exceptions]

/-- **No leftover falls silent.** In every history in which no person closes an exception, and no
match is undone that a closed exception is about, every run that is completed leaves each UNMATCHED
transaction of its bank without an ACTIVE claim named by an exception that is still open. -/
theorem leftovers_stay_named {c : Committed schema} (h : Unbooked c) {history : List Happening}
    (hcloses : ∀ x ∈ history, x.ClosesNone)
    (hundoes : ∀ before x after, history = before ++ x :: after →
      x.UndoesNoneSettled (happen c before).db) :
    ∀ before r after, history = before ++ .run r :: after →
      r.program.wp (fun _ s' => s'.view.LeftoversNamed r.bankCode) (fun _ _ => True)
        (happen c before).session := by
  rintro before r after rfl
  have hbefore : Shelf (happen c before).supply (happen c before).db := by
    refine happen_shelf h.shelf (fun x hx => hcloses x (List.mem_append_left _ hx)) ?_
    rintro first x rest rfl
    exact hundoes first x (rest ++ .run r :: after) (List.append_assoc _ _ _)
  exact (r.program_names (s := (happen c before).session) hbefore).mono (fun _ _ h => h.2)
    fun _ _ _ => trivial

/-! ## A pair that is undone after it was settled -/

/-- A pair that is one minor unit apart, and a pair that agrees. -/
def settledDay : Committed schema where
  db :=
    { transactions := [leftoverRow 1 .internal 5000, leftoverRow 2 .external 5001,
        { leftoverRow 3 .internal 700 with normalisedReference := some "PAY43" },
        { leftoverRow 4 .external 700 with normalisedReference := some "PAY43" }]
      files := [{ id := 1, bankCode := "AXIS", ingestedAt := 0 }] }
  supply := 5

theorem settledDay_unbooked : Unbooked settledDay := by
  constructor
  case adjustments => rfl
  constructor
  case exceptions => rfl
  constructor
  case results => rfl
  case claims => rfl
  all_goals decide

/-- A FULL run of the bank. -/
def axisRun (id : Id) (now : Instant) : WholeRun where
  orchestrator := { stagedRun with run := id }
  classifier := plainClassifier
  bankCode := "AXIS"
  now := now
  today := 739000
  staleAfterDays := none
  whole := rfl

/-- A run that settles the first pair by itself, and a match of which a person then undoes. -/
def settledAndUndone (result : Id) : List Happening :=
  [.run (axisRun 101 10), .operation (.unmatch ⟨constantDigests⟩ result "asha" "wrong pair" 20)]

theorem settledAndUndone_closesNone (result : Id) :
    ∀ x ∈ settledAndUndone result ++ [.run (axisRun 102 30)], x.ClosesNone := by
  intro x hx
  simp only [settledAndUndone, List.cons_append, List.nil_append, List.mem_cons, List.not_mem_nil,
    or_false] at hx
  rcases hx with rfl | rfl | rfl <;> trivial

example : (happen settledDay (settledAndUndone 8)).db.exceptions.map
    (fun e => (e.dedupeKey, e.status)) = [(.pair .amountMismatch 1 2, .resolved)] := by
  decide +kernel

/-- The next run finds the key of the pair taken, and the pair is in no open exception. -/
theorem leftover_falls_silent :
    Unbooked settledDay ∧
    (∀ x ∈ settledAndUndone 8 ++ [.run (axisRun 102 30)], x.ClosesNone) ∧
    ((axisRun 102 30).program.request (happen settledDay (settledAndUndone 8)).session).1.toBool ∧
    ¬ (happen settledDay
      (settledAndUndone 8 ++ [.run (axisRun 102 30)])).db.LeftoversNamed "AXIS" := by
  refine ⟨settledDay_unbooked, settledAndUndone_closesNone 8, by decide +kernel, fun hnamed => ?_⟩
  have hpool : (happen settledDay (settledAndUndone 8 ++ [.run (axisRun 102 30)])).db.InPool
      "AXIS" 1 := by
    unfold Db.InPool
    decide +kernel
  have hsilent : ∀ e ∈ (happen settledDay
      (settledAndUndone 8 ++ [.run (axisRun 102 30)])).db.exceptions,
      e.status.isOpen = true → 1 ∉ e.affectedRecords.transactions := by
    decide +kernel
  obtain ⟨e, he, hopen, hid⟩ := hnamed 1 hpool
  exact hsilent e he hopen hid

/-- Undoing the match of the pair that agrees is no harm. -/
theorem leftovers_stay_named_settledDay :
    (axisRun 102 30).program.wp (fun _ s' => s'.view.LeftoversNamed "AXIS") (fun _ _ => True)
      (happen settledDay (settledAndUndone 5)).session := by
  refine leftovers_stay_named settledDay_unbooked (settledAndUndone_closesNone 5) ?_
    (settledAndUndone 5) (axisRun 102 30) [] rfl
  intro before x after heq
  rcases before with _ | ⟨first, _ | ⟨second, _ | ⟨third, before⟩⟩⟩
  · cases heq
    trivial
  · cases heq
    show (happen settledDay [.run (axisRun 101 10)]).db.SparesSettled 5
    decide +kernel
  · cases heq
    trivial
  · have hlength := congrArg List.length heq
    simp [settledAndUndone] at hlength

end Recon
