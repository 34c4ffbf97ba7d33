import ReconEngine.Exceptions.Filing
import ReconEngine.Histories.AutoResolution

/-!
# What was settled stays out of the pool

An exception that is not open any more keeps its key, and nothing is raised under a key that exists.
That loses nothing while the transactions that the key is about are out of the pool: the
auto-resolver closes an exception only when they are, and every operation leaves them there but
one. Undoing a match returns its transactions to the pool, whatever was settled with it.

**The law** (`Operation.shelf`): what a closed exception is about stays out of the pool under every
operation that spares it; a person who closes an exception, or who undoes a match of what is
settled, does not. The auto-resolver is the hard case: an exception is closed at the end of a turn
whose action has just put the rows away (`act_away`, `autoResolveOne_turning`).

**What it does not establish.** That a person leaves the rows of a closed exception alone: to put
them back into the pool is a decision that the API offers.
-/

set_option autoImplicit false

namespace Recon

open Store (Committed)
open Store.Prog hiding pure bind

/-! ## The invariant -/

/-- The transaction is MATCHED or VOIDED. -/
def Db.Away (d : Db) (id : Id) : Prop :=
  ∀ t ∈ d.transactions, t.id = id → t.matchStatus ≠ .unmatched

/-- What the key of an exception is about that is not open any more is out of the pool. -/
structure Shelved (d : Db) : Prop where
  filed : ∀ e ∈ d.exceptions, Filed d e.dedupeKey e.category e.affectedRecords
  away : ∀ e ∈ d.exceptions, e.status.isOpen = false → ∀ id ∈ e.dedupeKey.subjects, d.Away id

section

variable {d d' : Db}

/-- Exceptions that stay what they are, and are closed only where they were. -/
theorem Shelved.step (h : Shelved d) (hcarries : d.Carries d')
    (haway : ∀ e ∈ d.exceptions, e.status.isOpen = false → ∀ id ∈ e.dedupeKey.subjects,
      d.Away id → d'.Away id)
    (he : ∀ e' ∈ d'.exceptions, ∃ e ∈ d.exceptions, e'.dedupeKey = e.dedupeKey ∧
      e'.category = e.category ∧ e'.affectedRecords = e.affectedRecords ∧
        (e'.status.isOpen = false → e.status.isOpen = false)) : Shelved d' where
  filed := by
    intro e' hmem
    obtain ⟨e, hold, hkey, hcategory, hrecords, -⟩ := he e' hmem
    rw [hkey, hcategory, hrecords]
    exact (h.filed e hold).carried hcarries
  away := by
    intro e' hmem hclosed id hid
    obtain ⟨e, hold, hkey, -, -, hstatus⟩ := he e' hmem
    rw [hkey] at hid
    exact haway e hold (hstatus hclosed) id hid (h.away e hold (hstatus hclosed) id hid)

/-- New exceptions are open. -/
theorem Shelved.created (h : Shelved d) {rows : List ReconException}
    (ht : d'.transactions = d.transactions) (hr : d'.results = d.results)
    (he : d'.exceptions = d.exceptions ++ rows)
    (hrows : ∀ row ∈ rows, row.status = .open ∧
      Filed d row.dedupeKey row.category row.affectedRecords) : Shelved d' where
  filed := by
    intro e hmem
    rw [he] at hmem
    rcases List.mem_append.mp hmem with hold | hnew
    · exact (h.filed e hold).carried (carries_of_same ht hr)
    · exact (hrows e hnew).2.carried (carries_of_same ht hr)
  away := by
    intro e hmem hclosed id hid
    rw [he] at hmem
    rcases List.mem_append.mp hmem with hold | hnew
    · exact fun t hmem' => h.away e hold hclosed id hid t (ht ▸ hmem')
    · rw [(hrows e hnew).1] at hclosed
      cases hclosed

/-- An exception is closed when what its key is about is away. -/
theorem Shelved.update (h : Shelved d) {id : Id} {columns : ExceptionColumns}
    (hclose : ∀ status, columns.status = some status → status.isOpen = false →
      ∀ e ∈ d.exceptions, e.id = id → ∀ i ∈ e.dedupeKey.subjects, d.Away i) :
    Shelved ((RowWrite.updateException id columns).apply d) where
  filed := by
    intro e' hmem
    obtain ⟨e, hold, rfl⟩ := Store.mem_updateIn.mp hmem
    have hfiled := (h.filed e hold).carried (carries_apply (.updateException id columns) d)
    split <;> exact hfiled
  away := by
    intro e' hmem hclosed i hi
    obtain ⟨e, hold, rfl⟩ := Store.mem_updateIn.mp hmem
    by_cases hid : e.id ∈ [id]
    · rw [if_pos hid] at hclosed hi
      cases hstatus : columns.status with
      | none =>
        simp only [ExceptionColumns.set, hstatus, Option.getD_none] at hclosed
        exact h.away e hold hclosed i hi
      | some status =>
        simp only [ExceptionColumns.set, hstatus, Option.getD_some] at hclosed
        exact hclose status hstatus hclosed e hold (List.mem_singleton.mp hid) i hi
    · rw [if_neg hid] at hclosed hi
      exact h.away e hold hclosed i hi

end

/-! ## Writes -/

/-- The write puts no transaction into the pool. -/
def RowWrite.LeavesPool : RowWrite → Prop
  | .insertTransaction _ => False
  | .transactionStatus _ status => status ≠ .unmatched
  | _ => True

/-- What is out of the pool stays out, whatever is written but an undone match. -/
theorem away_apply {w : RowWrite} (hw : w.LeavesPool) {d : Db} {id : Id} (h : d.Away id) :
    (w.apply d).Away id := by
  cases w with
  | insertTransaction t => exact hw.elim
  | transactionStatus i status =>
    intro t' ht' hid
    obtain ⟨t, ht, rfl⟩ := Store.mem_updateIn.mp ht'
    by_cases hin : t.id ∈ [i]
    · rw [if_pos hin]
      exact hw
    · rw [if_neg hin] at hid ⊢
      exact h t ht hid
  | voidTransaction i original =>
    intro t' ht' hid
    obtain ⟨t, ht, rfl⟩ := Store.mem_updateIn.mp ht'
    by_cases hin : t.id ∈ [i]
    · rw [if_pos hin]
      exact nofun
    · rw [if_neg hin] at hid ⊢
      exact h t ht hid
  | _ => exact h

/-- So does work made of such writes. -/
theorem away_of_work {α : Type} {p : Prog α} (hp : p.Work RowWrite.LeavesPool) {id : Id}
    {s : Session} (h : s.view.Away id) :
    p.wp (fun _ s' => s'.view.Away id) (fun _ _ => True) s :=
  (Keeps.of_writes (I := fun _ (d : Db) => d.Away id) (fun _ _ _ _ hd => hd)
    (fun _ _ _ hw hd => away_apply hw hd) hp).kept s h

/-- It raises no exception and closes none either. -/
def RowWrite.LeavesShelf : RowWrite → Prop
  | .insertException _ => False
  | .updateException _ columns =>
    ∀ status, columns.status = some status → status.isOpen = true
  | w => w.LeavesPool

theorem leavesShelf_leavesPool {w : RowWrite} (h : w.LeavesShelf) : w.LeavesPool := by
  cases w with
  | insertException e => exact h.elim
  | updateException id columns => trivial
  | _ => exact h

theorem Shelved.apply {w : RowWrite} (hw : w.LeavesShelf) {d : Db} (h : Shelved d) :
    Shelved (w.apply d) := by
  have hsame : (w.apply d).exceptions = d.exceptions → Shelved (w.apply d) := fun he =>
    h.step (carries_apply w d) (fun _ _ _ _ _ => away_apply (leavesShelf_leavesPool hw))
      fun e hmem => ⟨e, he ▸ hmem, rfl, rfl, rfl, fun hclosed => hclosed⟩
  cases w with
  | insertException e => exact hw.elim
  | updateException id columns =>
    refine h.update fun status hstatus hclosed => ?_
    rw [hw status hstatus] at hclosed
    cases hclosed
  | _ => exact hsame rfl

theorem shelved_grows : Grows (S := schema) fun _ => Shelved := fun _ _ _ _ h => h

theorem shelved_of_work {α : Type} {p : Prog α} (hp : p.Work RowWrite.LeavesShelf) :
    p.Keeps fun _ => Shelved :=
  Keeps.of_writes shelved_grows (fun _ _ _ hw h => h.apply hw) hp

/-- A level takes from the pool and returns nothing. -/
theorem ofLevel_leavesShelf {w : RowWrite} (h : w.OfLevel) : w.LeavesShelf := by
  cases w with
  | transactionStatus id status =>
    obtain rfl : status = .matched := h
    exact nofun
  | insertResult r => trivial
  | insertClaim c => trivial
  | claimResult c r => trivial
  | insertAudit row => trivial
  | _ => exact h.elim

theorem ofSettling_leavesShelf {w : RowWrite} (h : w.OfSettling) : w.LeavesShelf := by
  cases w with
  | transactionStatus id status =>
    obtain rfl : status = .matched := h
    exact nofun
  | insertResult r => trivial
  | resultStatus id status reviewer => trivial
  | insertClaim c => trivial
  | claimResult c r => trivial
  | insertAudit row => trivial
  | _ => exact h.elim

theorem ofTriage_leavesShelf {w : RowWrite} (h : w.OfTriage) : w.LeavesShelf := by
  cases w with
  | updateException id columns =>
    intro status hstatus
    rcases h status hstatus with rfl | rfl <;> rfl
  | insertEvent v => trivial
  | insertAudit row => trivial
  | _ => exact h.elim

theorem ofIntake_leavesShelf {w : RowWrite} (h : w.OfIntake) : w.LeavesShelf := by
  cases w <;> first
    | exact h.elim
    | trivial

/-! ## Classification -/

/-- New exceptions are open, so the shelf is as it was. -/
theorem persist_shelved (svc : ExceptionService) {candidates : List Candidate} (runId : Option Id)
    (now : Instant) (batchCount : Nat) {s : Session} (h : Shelved s.view)
    (hcs : ∀ c ∈ candidates, c.FiledIn s.view) :
    (svc.persist candidates runId now batchCount).wp
      (fun _ s' => Shelved s'.view ∧ (∀ e ∈ s.view.exceptions, e ∈ s'.view.exceptions) ∧
        ∀ c ∈ candidates, ∃ e ∈ s'.view.exceptions, e.dedupeKey = c.dedupeKey)
      (fun _ _ => True) s := by
  have hkeeps := Work.wp_keeps (f := fun d : Db => (d.transactions, d.results)) (fun w d hw => by
    cases w with
    | insertException e => rfl
    | insertEvent e => rfl
    | insertAudit row => rfl
    | _ => exact hw.elim) (svc.persist_ofCreation candidates runId now batchCount) s
  refine ((persist_creates svc candidates runId now batchCount s).and hkeeps).mono ?_
    fun _ _ _ => trivial
  rintro _ s' ⟨⟨rows, -, -, -, hrows, he, -⟩, -, hsame⟩
  obtain ⟨ht, hr⟩ := Prod.mk.inj hsame
  refine ⟨h.created ht hr he fun row hrow => ?_, fun e hold => ?_, fun c hc => ?_⟩
  · obtain ⟨c, hc, hopened⟩ := Store.forall₂_right hrows row hrow
    rw [hopened]
    exact ⟨rfl, hcs c (List.mem_filter.mp hc).1⟩
  · exact he ▸ List.mem_append_left rows hold
  · rw [he]
    by_cases hexists : c.dedupeKey ∈ s.view.exceptions.map (·.dedupeKey)
    · obtain ⟨e, hold, hkey⟩ := List.mem_map.mp hexists
      exact ⟨e, List.mem_append_left rows hold, hkey⟩
    · have hfresh : c ∈ s.view.freshCandidates candidates := by
        refine List.mem_filter.mpr ⟨hc, ?_⟩
        rw [Bool.not_eq_true', List.contains_eq_mem, decide_eq_false_iff_not]
        exact fun hin => hexists (List.mem_filter.mp hin).1
      obtain ⟨row, hrow, hopened⟩ := Store.forall₂_right (List.Forall₂.flip hrows) c hfresh
      exact ⟨row, List.mem_append_right _ hrow, hopened ▸ rfl⟩

/-- A classification keeps the shelf and leaves an exception under the key of each candidate. -/
theorem classifyWith_shelved (svc : ExceptionClassifier)
    {candidates : Db → Except ReconError (List Candidate)} (runId : Id) (now : Instant)
    (hcs : ∀ d cs, candidates d = .ok cs → ∀ c ∈ cs, c.FiledIn d) :
    (svc.classifyWith candidates runId now).Keeps fun _ => Shelved where
  work := (classifyWith_work _ _ _ _).weaken fun _ _ => trivial
  kept s hs := by
    unfold ExceptionClassifier.classifyWith
    rw [bind_eq, wp_bind, wp_tables, bind_eq, wp_bind]
    refine wp_ofExcept (fun cs hok => ?_) fun _ _ => trivial
    exact (persist_shelved _ _ _ _ hs (hcs s.view cs hok)).mono (fun _ _ h => h.1)
      fun _ _ _ => trivial

/-- Classifying the leftovers leaves an exception with the key of every candidate. -/
theorem classifyUnmatched_shelved (svc : ExceptionClassifier) (bankCode : String) (runId : Id)
    (now : Instant) (asOfDate : Option Date) (staleAfterDays : Option Int) (range : DateRange)
    {s : Session} (h : Shelved s.view) :
    (svc.classifyUnmatched bankCode runId now asOfDate staleAfterDays range).wp
      (fun _ s' => Shelved s'.view ∧ ∃ cs,
        svc.leftoverCandidates s.view bankCode asOfDate staleAfterDays range = .ok cs ∧
          ∀ c ∈ cs, ∃ e ∈ s'.view.exceptions, e.dedupeKey = c.dedupeKey)
      (fun _ _ => True) s := by
  unfold ExceptionClassifier.classifyUnmatched
  rw [bind_eq, wp_bind, wp_require]
  split
  swap
  · trivial
  rw [bind_eq, wp_bind, wp_tables, bind_eq, wp_bind]
  refine wp_ofExcept (fun found hduplicates => ?_) fun _ _ => trivial
  obtain ⟨duplicates, copies⟩ := found
  simp only [bind_eq, wp_bind, wp_findUnmatched, wp_tables]
  refine wp_ofExcept (fun unmatched hunmatched => ?_) fun _ _ => trivial
  have hcandidates : svc.leftoverCandidates s.view bankCode asOfDate staleAfterDays range =
      .ok (duplicates ++ unmatched) := by
    unfold ExceptionClassifier.leftoverCandidates
    simp only [hduplicates, hunmatched, bind, Except.bind, pure, Except.pure]
  refine (persist_shelved _ _ _ _ h (leftoverCandidates_filed hcandidates)).mono ?_
    fun _ _ _ => trivial
  exact fun _ s' hs' => ⟨hs'.1, _, hcandidates, hs'.2.2⟩

/-- What a classification raises once it has looked at the leftovers. -/
theorem classifyOthers_shelved (svc : ExceptionClassifier) (bankCode : String) (runId : Id)
    (now : Instant) :
    (svc.classifyPendingReview bankCode runId now).Keeps (fun _ => Shelved) ∧
      (svc.classifyMatched bankCode runId now).Keeps (fun _ => Shelved) ∧
      (svc.classifyGroups bankCode runId now).Keeps (fun _ => Shelved) :=
  ⟨classifyWith_shelved _ _ _ fun _ _ => pendingReviewCandidates_filed,
    classifyWith_shelved _ _ _ fun _ _ => matchedCandidates_filed,
    classifyWith_shelved _ _ _ fun _ _ => groupCandidates_filed⟩

theorem classifyRun_shelved (svc : ExceptionClassifier) (bankCode : String) (runId : Id)
    (now : Instant) (asOfDate : Option Date) (staleAfterDays : Option Int) (range : DateRange) :
    (svc.classifyRun bankCode runId now asOfDate staleAfterDays range).Keeps fun _ => Shelved := by
  obtain ⟨hpending, hmatched, hgroups⟩ := classifyOthers_shelved svc bankCode runId now
  have hunmatched : (svc.classifyUnmatched bankCode runId now asOfDate staleAfterDays range).Keeps
      fun _ => Shelved :=
    ⟨(classifyUnmatched_work _ _ _ _ _ _ _).weaken fun _ _ => trivial,
      fun s hs => (classifyUnmatched_shelved _ _ _ _ _ _ _ hs).mono (fun _ _ h => h.1)
        fun _ _ _ => trivial⟩
  exact hunmatched.bind fun _ => hpending.bind fun _ => hmatched.bind fun _ => hgroups.bind
    fun _ => keeps_pure _

theorem classifyIngestionFile_shelved (svc : ExceptionClassifier) (file : Id) (now : Instant) :
    (svc.classifyIngestionFile file now).Keeps fun _ => Shelved where
  work := (classifyIngestionFile_work _ _ _).weaken fun _ _ => trivial
  kept s hs := by
    unfold ExceptionClassifier.classifyIngestionFile
    rw [bind_eq, wp_bind, wp_tables]
    split
    · trivial
    · exact (persist_shelved _ _ _ _ hs formatErrorCandidates_filed).mono (fun _ _ h => h.1)
        fun _ _ _ => trivial

/-! ## Auto-resolution -/

section

variable {logger : AuditLogger} {e : ReconException} {now : Instant} {s : Session}

/-- The sides of a match that stands are out of the pool. -/
theorem Ledger.away_of_settled {n : Nat} {d : Db} (h : Ledger n d) {r : MatchResult}
    (hr : r ∈ d.results) (hsettled : r.Settled) {id : Id} (hside : r.Side id) : d.Away id := by
  rintro t ht rfl
  obtain ⟨r', hholds, hsettled', -⟩ := h.covered r hr hsettled t.id hside
  rw [(h.matched t ht).mpr ⟨r', hholds, hsettled'⟩]
  exact nofun

/-- A row that is MATCHED is out of the pool. -/
theorem away_setStatus {d : Db} {ids : List Id} {id : Id} (h : id ∈ ids) :
    (d.setStatus .matched ids).Away id := by
  rintro t ht rfl
  obtain ⟨old, -, hid, hstatus⟩ := Db.mem_setStatus ht
  rw [hstatus, hid, if_pos h]
  exact nofun

/-- A match under review is confirmed, and its sides leave the pool. -/
theorem confirmMatch_away (hsound : Sound s.supply s.view) {r : MatchResult}
    (hr : r ∈ s.view.results) (reviewer : String) (note : Option String) (automated : Bool)
    {id : Id} (hside : r.Side id) :
    (confirmMatch logger r.id reviewer note automated now).wp (fun _ s' => s'.view.Away id)
      (fun _ _ => True) s := by
  have hspec : (confirmMatch logger r.id reviewer note automated now).wp _ _ s :=
    confirmMatch_spec r.id reviewer note automated now hsound.ledger
  refine (hspec.and ((confirmMatch_sound logger r.id reviewer note automated now).kept s
    hsound)).mono ?_ fun _ _ _ => trivial
  rintro _ s' ⟨⟨-, x, row, -, hstatus, hids, hview⟩, hsound'⟩
  have hr' : (if r.id ∈ x.ids then r.judge x.status x.reviewer else r) ∈ s'.view.results := by
    rw [hview]
    exact Store.mem_updateIn.mpr ⟨r, hr, rfl⟩
  rw [hids, if_pos (List.mem_singleton_self _)] at hr'
  exact hsound'.ledger.away_of_settled hr' (.inr hstatus) hside

/-- The pair of an exception is settled by a match of that pair. -/
theorem settlePair_away {records : AffectedRecords} {internal external : NormalisedTransaction}
    (ruleId : String) (hsound : Sound s.supply s.view)
    (hresult : ∀ result, records.matchResultId = some result → ∃ r ∈ s.view.results,
      r.id = result ∧ r.internalTransactionId = internal.id ∧
        r.externalTransactionId = external.id)
    {id : Id} (hid : id = internal.id ∨ id = external.id) :
    (settlePair logger records internal external ruleId now).wp (fun _ s' => s'.view.Away id)
      (fun _ _ => True) s := by
  unfold settlePair
  split
  · rename_i result hsome
    obtain ⟨r, hr, rfl, hi, hx⟩ := hresult result hsome
    have hside : r.Side id := hid.imp (·.trans hi.symm) (·.trans hx.symm)
    unfold settleMatched
    rw [bind_eq, wp_bind, wp_tables]
    split
    · trivial
    rename_i found hfound
    obtain ⟨hmem, hsame⟩ := Db.mem_of_result? hfound
    obtain rfl := hsound.ledger.result_eq hmem hr hsame
    split
    · exact wp_bind.mpr (confirmMatch_away hsound hr _ _ _ hside)
    · exact hsound.ledger.away_of_settled hr (.inl ‹_›) hside
    · exact hsound.ledger.away_of_settled hr (.inr ‹_›) hside
    · trivial
  · unfold settleLeftover
    simp only [bind_eq, wp_bind, wp_require, wp_tablesMarking]
    split
    swap
    · trivial
    split
    swap
    · trivial
    refine (recordPair_spec _ s hsound.ledger.claimBelow).mono ?_ fun _ _ _ => trivial
    rintro (_ | result) s₁ -
    · trivial
    refine (markAll_spec _ s₁).mono ?_ fun _ _ _ => trivial
    rintro _ s₂ ⟨hview, -⟩
    rw [hview]
    exact away_setStatus (by simpa [autoResolveColumns] using hid)

/-- An action that does not fail puts what the key is about out of the pool. -/
theorem act_away (hsound : Sound s.supply s.view)
    (htrace : Traceable s.view e.category e.affectedRecords)
    (hfiled : Filed s.view e.dedupeKey e.category e.affectedRecords) {id : Id}
    (hid : id ∈ e.dedupeKey.subjects) :
    (act logger e now).wp (fun _ s' => s'.view.Away id) (fun _ _ => True) s := by
  have hsome : e.dedupeKey.subjects ≠ [] := List.ne_nil_of_mem hid
  unfold act
  split
  · rename_i hcategory
    rw [hfiled.duplicate hcategory] at hid
    obtain ⟨copy, -, original, -, hids, -, -⟩ := htrace.duplicate hcategory
    obtain rfl : id = copy.id := List.mem_singleton.mp (hids ▸ hid)
    unfold voidDuplicate
    rw [bind_eq, wp_bind, wp_record, hids]
    refine ⟨fun copyId hcopyId => ?_, fun _ => trivial⟩
    obtain rfl : copy.id = copyId := Option.some.inj hcopyId
    rw [bind_eq, wp_bind]
    refine (readTransaction_spec copy.id s).mono ?_ fun _ _ _ => trivial
    rintro row s' ⟨rfl, -, hrow⟩
    rw [bind_eq, wp_bind, wp_record]
    refine ⟨fun originalId _ => ?_, fun _ => trivial⟩
    simp only [bind_eq, wp_bind, wp_tables, wp_require, wp_lockRow, wp_put]
    split
    swap
    · trivial
    rw [Store.Session.view_write]
    intro t' ht' htid
    obtain ⟨t, -, rfl⟩ := Store.mem_updateIn.mp ht'
    by_cases hin : t.id ∈ [row.id]
    · rw [if_pos hin]
      exact fun hopen => by cases hopen
    · rw [if_neg hin] at htid
      exact absurd (List.mem_singleton.mpr (htid.trans hrow.symm)) hin
  · exact absurd (hfiled.group (.inl ‹_›)) hsome
  · exact absurd (hfiled.group (.inr ‹_›)) hsome
  split
  · trivial
  rename_i category _ _ _ ruleId hrule
  obtain ⟨i, x, hkey, hi, hx, hresult⟩ := hfiled.pair (by rw [hrule]; rfl) hsome
  rw [bind_eq, wp_bind, wp_record, hi]
  refine ⟨fun i' hi' => ?_, fun _ => trivial⟩
  obtain rfl := Option.some.inj hi'
  rw [bind_eq, wp_bind]
  refine (readTransaction_spec i s).mono ?_ fun _ _ _ => trivial
  rintro internal s₁ ⟨rfl, -, rfl⟩
  rw [bind_eq, wp_bind, wp_record, hx]
  refine ⟨fun x' hx' => ?_, fun _ => trivial⟩
  obtain rfl := Option.some.inj hx'
  rw [bind_eq, wp_bind]
  refine (readTransaction_spec x s₁).mono ?_ fun _ _ _ => trivial
  rintro external s₂ ⟨rfl, -, rfl⟩
  rw [bind_eq, wp_bind]
  rw [hkey, List.mem_cons, List.mem_singleton] at hid
  refine (settlePair_away ruleId hsound hresult hid).mono ?_ fun _ _ _ => trivial
  intro _ s₃ haway
  rw [wp_ite]
  split
  · exact away_of_work (postFeeAdjustment_work (fun _ => trivial) _ _ _) haway
  · exact haway

/-- The writes of an action. -/
def RowWrite.OfAction (w : RowWrite) : Prop :=
  w.OfPosting ∨ ∃ id original, w = .voidTransaction id original

theorem ofAction_leavesShelf {w : RowWrite} (h : w.OfAction) : w.LeavesShelf := by
  rcases h with (h | ⟨a, rfl⟩) | ⟨id, original, rfl⟩
  · exact ofSettling_leavesShelf h
  · trivial
  · trivial

theorem act_ofAction (logger : AuditLogger) (e : ReconException) (now : Instant) :
    (act logger e now).Work RowWrite.OfAction := by
  by_cases hcategory : e.category = .duplicateInternal
  · unfold act
    rw [hcategory]
    exact Work.bind (record_work _ _) fun _ => Work.bind (readTransaction_work _) fun _ =>
      Work.bind (record_work _ _) fun _ => Work.bind work_tables fun _ =>
      Work.bind (work_require _ _) fun _ => Work.bind (work_lockRow _) fun _ =>
      work_put.mpr (.inr ⟨_, _, rfl⟩)
  · exact (act_ofPosting logger now hcategory).weaken fun _ => .inl

/-- What a run of the auto-resolver knows of the exceptions that it read. -/
structure Listed (es : List ReconException) (d : Db) : Prop where
  filed : ∀ e ∈ es, Filed d e.dedupeKey e.category e.affectedRecords
  keys : ∀ e ∈ es, ∀ e' ∈ d.exceptions, e'.id = e.id → e'.dedupeKey = e.dedupeKey

/-- The exceptions of a run stay filed while it works through them. -/
theorem Listed.apply {es : List ReconException} {w : RowWrite}
    (hw : ∀ e, w ≠ .insertException e) {d : Db} (h : Listed es d) : Listed es (w.apply d) where
  filed e he := (h.filed e he).carried (carries_apply w d)
  keys := by
    cases w with
    | insertException e => exact absurd rfl (hw e)
    | updateException id columns =>
      intro e he e' he' hid
      obtain ⟨old, hold, rfl⟩ := Store.mem_updateIn.mp he'
      have hkey : (if old.id ∈ [id] then columns.set old else old).dedupeKey = old.dedupeKey ∧
          (if old.id ∈ [id] then columns.set old else old).id = old.id := by
        split <;> exact ⟨rfl, rfl⟩
      rw [hkey.1]
      exact h.keys e he old hold (hkey.2.symm.trans hid)
    | _ => exact h.keys

/-- What a turn of the auto-resolver relies on. -/
structure Turning (es : List ReconException) (n : Nat) (d : Db) : Prop where
  sound : Sound n d
  read : Read es d
  shelved : Shelved d
  listed : Listed es d

theorem turning_grows (es : List ReconException) : Grows (S := schema) (Turning es) :=
  fun _ _ _ hn h => { h with sound := sound_grows _ _ _ hn h.sound }

/-- The action of a turn, which leaves nothing in the pool where it is carried out. -/
theorem attemptAct_turning {es : List ReconException} (he : e ∈ es)
    (h : Turning es s.supply s.view) :
    (attempt (do
      act logger e now
      return true) fun err => if err.leavesToPerson then return false else .fail err).wp
      (fun acted s₁ => Turning es s₁.supply s₁.view ∧
        (acted = true → ∀ id ∈ e.dedupeKey.subjects, s₁.view.Away id)) (fun _ _ => True) s := by
  have hwork := (act_ofAction logger e now).weaken fun _ => ofAction_leavesShelf
  have hlisted : (act logger e now).Keeps fun _ => Listed es :=
    Keeps.of_writes (fun _ _ _ _ hd => hd) (fun _ _ _ hw hd => hd.apply fun e' heq => by
      rw [heq] at hw
      exact hw) hwork
  have haway : (act logger e now).wp
      (fun _ s' => ∀ id ∈ e.dedupeKey.subjects, s'.view.Away id) (fun _ _ => True) s :=
    wp_forall fun id => wp_forall fun hid =>
      act_away h.sound (h.read.2 e he) (h.listed.filed e he) hid
  refine wp_attemptAct (((((act_traced logger now he).kept s ⟨h.sound, h.read⟩).and
    ((shelved_of_work hwork).kept s h.shelved)).and ((hlisted.kept s h.listed).and haway)).mono
    ?_ fun _ _ _ => Or.inr trivial) ?_
  · rintro _ s₁ ⟨⟨⟨hsound, hread⟩, hshelved⟩, hlisted', haway'⟩
    exact ⟨⟨hsound, hread, hshelved, hlisted'⟩, fun _ => haway'⟩
  · exact fun s₁ hsupply hback => ⟨hback ▸ turning_grows es _ _ _ hsupply h, nofun⟩

/-- A turn closes its exception once its action is done. -/
theorem autoResolveOne_turning {es : List ReconException} (he : e ∈ es) :
    (autoResolveOne logger now e).Keeps (Turning es) where
  work := (autoResolveOne_work _ _ _).weaken fun _ _ => trivial
  kept s hs := by
    unfold autoResolveOne
    rw [bind_eq, wp_bind]
    refine (attemptAct_turning he hs).mono ?_ fun _ _ _ => trivial
    rintro acted s₁ ⟨hs₁, haway⟩
    rw [bind_eq, wp_bind]
    have hkept : (autoOutcome logger now e acted).Keeps fun n d =>
        (Sound n d ∧ Read es d) ∧ Listed es d :=
      Keeps.of_writes (fun _ _ _ hn h => ⟨⟨sound_grows _ _ _ hn h.1.1, h.1.2⟩, h.2⟩)
        (fun n w d hw h => ⟨⟨h.1.1.of_same ((ofHandling_leavesMatches hw).same d),
          h.1.2.steady (ofHandling_steady hw d)⟩, h.2.apply fun e' heq => by
            rw [heq] at hw
            exact hw⟩)
        (autoOutcome_ofHandling _ _ _ _)
    refine ((hkept.kept s₁ ⟨⟨hs₁.sound, hs₁.read⟩, hs₁.listed⟩).and
      (autoOutcome_writes acted s₁)).mono ?_ fun _ _ _ => trivial
    rintro _ s₂ ⟨⟨⟨hsound, hread⟩, hlisted⟩, -, event, row, hview⟩
    refine ⟨hsound, hread, ?_, hlisted⟩
    rw [hview]
    refine Shelved.apply (w := .insertAudit row) trivial
      (Shelved.apply (w := .insertEvent event) trivial (hs₁.shelved.update ?_))
    intro status hstatus hclosed e' he' hid i hi
    cases acted with
    | true => exact haway rfl i (hs₁.listed.keys e he e' he' hid ▸ hi)
    | false => cases hstatus

/-- A run of the auto-resolver puts on the shelf what it closes. -/
theorem autoResolverRun_shelved (logger : AuditLogger) (bankCode : String) (runId : Option Id)
    (now : Instant) :
    (autoResolverRun logger bankCode runId now).Keeps fun n d => Booked n d ∧ Shelved d := by
  refine (autoResolverRun_booked _ _ _ _).and_given (J := fun _ => Shelved)
    fun s hbooked hshelved => ?_
  obtain ⟨⟨hsound, hlineage⟩, hposted⟩ := hbooked
  have hmem : ∀ e ∈ s.view.autoResolvable bankCode runId, e ∈ s.view.exceptions :=
    fun e he => (mem_autoResolvable.mp he).1
  have hstart : Turning (s.view.autoResolvable bankCode runId) s.supply s.view := by
    refine ⟨hsound, ⟨hlineage, fun e he => hlineage.exceptions e (hmem e he)⟩, hshelved,
      fun e he => hshelved.filed e (hmem e he), fun e he e' he' hid => ?_⟩
    exact congrArg (·.dedupeKey) (Store.eq_of_key_eq hposted.ids he' (hmem e he) hid)
  unfold autoResolverRun
  rw [bind_eq, wp_bind, wp_tables, bind_eq, wp_bind, lockAll_wp, bind_eq, wp_bind]
  have hrows : (eachRow (autoResolveOne logger now) (s.view.autoResolvable bankCode runId)).Keeps
      (Turning (s.view.autoResolvable bankCode runId)) :=
    eachRow_keeps _ fun e he => autoResolveOne_turning he
  exact (hrows.kept s hstart).mono (fun _ _ h => h.shelved) fun _ _ _ => trivial

end

/-! ## Every operation -/

/-- Tables whose adjustments are booked, and whose settled exceptions are out of the pool. -/
abbrev Shelf (n : Nat) (d : Db) : Prop := Booked n d ∧ Shelved d

theorem shelf_grows : Grows (S := schema) Shelf :=
  fun _ _ _ hn h => ⟨booked_grows _ _ _ hn h.1, h.2⟩

/-- The transactions of a match that is about to be undone are not what a closed exception is
about. -/
def Db.SparesSettled (d : Db) (result : Id) : Prop :=
  ∀ first, d.result? result = some first → ∀ t ∈ matchSides (d.matchRows first),
    ∀ e ∈ d.exceptions, e.status.isOpen = false → t ∉ e.dedupeKey.subjects

instance (d : Db) (result : Id) : Decidable (d.SparesSettled result) :=
  inferInstanceAs (Decidable (∀ first ∈ d.result? result, ∀ t ∈ matchSides (d.matchRows first),
    ∀ e ∈ d.exceptions, e.status.isOpen = false → t ∉ e.dedupeKey.subjects))

/-- Undoing a match keeps the shelf where nothing on it is about the match. -/
theorem unmatch_shelved (logger : AuditLogger) (id : Id) (user reason : String) (now : Instant)
    {s : Session} (h : Shelved s.view) (hspares : s.view.SparesSettled id) :
    (unmatch logger id user reason now).wp (fun _ s' => Shelved s'.view) (fun _ _ => True) s := by
  refine (unmatch_spec logger id user reason now s).mono ?_ fun _ _ _ => trivial
  rintro _ s' ⟨first, hfirst, -, -, -, row, hview⟩
  rw [hview]
  apply Shelved.apply (w := .insertAudit row) trivial
  refine h.step ⟨fun t ht => Db.mem_setStatus_ids ⟨t, ht, rfl⟩, fun r hr => ?_⟩ ?_
    fun e he => ⟨e, he, rfl, rfl, rfl, fun hclosed => hclosed⟩
  · refine ⟨_, List.mem_map_of_mem hr, ?_⟩
    split <;> exact ⟨rfl, rfl, rfl⟩
  · intro e he hclosed i hi haway t ht hid
    obtain ⟨old, hold, hsame, hstatus⟩ := Db.mem_setStatus ht
    have hout : old.id ∉ (s.view.undoing first user).ts := by
      intro hin
      obtain ⟨side, hside, heq⟩ := List.mem_map.mp hin
      have hmem : side.id ∈ matchSides (s.view.matchRows first) :=
        of_decide_eq_true (List.mem_filter.mp hside).2
      exact hspares first hfirst side.id hmem e he hclosed (heq.trans (hsame.trans hid) ▸ hi)
    rw [hstatus, if_neg hout]
    exact haway old hold (hsame.trans hid)

/-- A row that arrives has an identifier of its own. -/
theorem insertTransaction_shelved {n : Nat} {d : Db} (h : Shelf n d) {t : NormalisedTransaction}
    (ht : t.id = n) : Shelved ((RowWrite.insertTransaction t).apply d) := by
  refine h.2.step (carries_apply _ d) (fun e he _ id hid haway row hrow hrowId => ?_)
    fun e he => ⟨e, he, rfl, rfl, rfl, fun hclosed => hclosed⟩
  rcases List.mem_append.mp hrow with hrow | hrow
  · exact haway row hrow hrowId
  · obtain ⟨known, hknown, heq⟩ := (h.2.filed e he).known id hid
    have hlt := h.1.1.1.ledger.transactionBelow known hknown
    rw [heq, ← hrowId, List.mem_singleton.mp hrow, ht] at hlt
    exact absurd hlt (Nat.lt_irrefl n)

theorem process_shelf (p : IngestionPipeline) (up : Upload) (now : Instant) :
    (p.process up now).Keeps Shelf := by
  apply process_keeps shelf_grows
  · intro n w d hw h
    obtain ⟨he, ha⟩ := Prod.mk.inj (ofIntake_leavesPosted hw d)
    exact ⟨⟨⟨h.1.1.1.of_same ((ofIntake_leavesMatches hw).same d),
      h.1.1.2.steady (ofIntake_steady hw d)⟩, h.1.2.of_same he ha⟩,
      h.2.apply (ofIntake_leavesShelf hw)⟩
  · intro file n d canonical raw h
    exact ⟨⟨⟨insertTransaction_sound h.1.1.1, h.1.1.2.steady (insertTransaction_steady d rfl)⟩,
      (h.1.2.mono (Nat.le_succ n)).of_same rfl rfl⟩, insertTransaction_shelved h rfl⟩
  · exact fun file => ((classifyIngestionFile_traced _ _ _).and
      (classifyIngestionFile_posted _ _ _)).and (classifyIngestionFile_shelved _ _ _)

theorem escalate_shelf (logger : AuditLogger) (bankCode : String) (runId : Option Id)
    (now : Instant) : (escalate logger bankCode runId now).Keeps Shelf :=
  escalate_keeps shelf_grows (fun _ _ _ hw h =>
    ⟨ofHandling_booked (ofTriage_ofHandling hw) h.1, h.2.apply (ofTriage_leavesShelf hw)⟩)
    (autoResolverRun_shelved _ _ _ _)

/-- What an operation must leave alone: no person closes an exception, and no match is undone that
a closed exception is about. -/
def Operation.Spares (d : Db) : Operation → Prop
  | .handle _ _ _ _ h => ∀ body, h ≠ .resolve body
  | .unmatch _ id _ _ _ => d.SparesSettled id
  | _ => True

/-- An operation that leaves them alone keeps what was settled out of the pool. -/
theorem Operation.shelf (op : Operation) {s : Session} (hs : Shelf s.supply s.view)
    (hspares : op.Spares s.view) :
    op.program.wp (fun _ s' => Shelf s'.supply s'.view) (fun _ _ => True) s := by
  have hand : op.program.wp (fun _ s' => Shelved s'.view) (fun _ _ => True) s →
      op.program.wp (fun _ s' => Shelf s'.supply s'.view) (fun _ _ => True) s := fun h =>
    ((op.booked.kept s hs.1).and h).mono (fun _ _ h => h) fun _ _ _ => trivial
  have hwrites : ∀ {W : RowWrite → Prop}, op.program.Work W → (∀ w, W w → w.LeavesShelf) →
      op.program.wp (fun _ s' => Shelf s'.supply s'.view) (fun _ _ => True) s := fun hwork hW =>
    hand ((shelved_of_work (hwork.weaken hW)).kept s hs.2)
  cases op with
  | ingest p up now => exact ((process_shelf p up now).bind fun _ => keeps_pure _).kept s hs
  | level o bankCode l => exact hwrites (levelProgram_ofLevel l) fun _ => ofLevel_leavesShelf
  | classify svc bankCode runId now asOfDate staleAfterDays range =>
    exact hand (((classifyRun_shelved _ _ _ _ _ _ _).bind fun _ => keeps_pure _).kept s hs.2)
  | autoResolve logger bankCode runId now =>
    exact ((autoResolverRun_shelved _ _ _ _).bind fun _ => keeps_pure _).kept s hs
  | escalate logger bankCode runId now =>
    exact ((escalate_shelf _ _ _ _).bind fun _ => keeps_pure _).kept s hs
  | handle logger id principal now h =>
    exact hwrites (handling_ofTriage _ _ _ _ hspares) fun _ => ofTriage_leavesShelf
  | confirm logger id reviewer note now =>
    exact hwrites (Work.bind (confirmMatch_work _ _ _ _ _ _) fun _ => work_pure _)
      fun _ => ofSettling_leavesShelf
  | reject logger id reviewer reason now =>
    exact hwrites (Work.bind (rejectMatch_writes _ _ _ _ _ (fun _ => trivial)
      (fun _ _ _ => trivial) fun _ => trivial) fun _ => work_pure _) fun _ hw => hw
  | create logger internalId externalId user note now =>
    exact hwrites (Work.bind ((createMatch_work _ _ _ _ _ _).weaken
      (LevelWrite.weaken fun _ _ => trivial)) fun _ => work_pure _) fun _ => ofLevel_leavesShelf
  | unmatch logger id user reason now =>
    exact hand (wp_bind.mpr ((unmatch_shelved _ _ _ _ _ hs.2 hspares).mono (fun _ _ h => h)
      fun _ _ _ => trivial))

end Recon
