import ReconEngine.Exceptions.Findings
import ReconEngine.Histories.Soundness
import Mathlib.Data.List.MinMax

/-!
# Voided copies over histories

Which row of a set counts as the original is decided anew at every classification, and a row that
was an original may be a copy once an older file arrives. Whatever was voided, though, was voided
for a row of its set that came before it, and that relation never changes: so the first row of a
set is never voided.

**The law** (`voiding_keeps_copy`): after every history, each row has one alike that is not VOIDED,
and a VOIDED row names an original of its set. The invariant names for each VOIDED row an earlier
one that it was voided for; the rows of a set are finitely many and the order is strict, so the
chain of earlier rows ends.

**What it does not establish.** The row that is left need not be the one that duplicate detection
would keep today, and nothing is said of the status it has beyond that it is not VOIDED.
-/

set_option autoImplicit false

namespace Recon

open Store (Committed)
open Store.Prog hiding pure bind

/-! ## The invariant -/

/-- Every exception can be traced, and every VOIDED row names the row it is a copy of. -/
structure Lineage (d : Db) : Prop where
  exceptions : ∀ e ∈ d.exceptions, Traceable d e.category e.affectedRecords
  voided : ∀ t ∈ d.transactions, t.matchStatus = .voided →
    ∃ original ∈ d.transactions, t.voidedOriginalId = some original.id ∧ d.CopyOf t original

/-- Nothing was voided and no exception was raised, and what was ingested stays. -/
structure Db.Steady (d d' : Db) : Prop extends d.Extends d' where
  exceptions : ∀ e' ∈ d'.exceptions, ∃ e ∈ d.exceptions, e'.category = e.category ∧
    e'.affectedRecords = e.affectedRecords
  voided : ∀ t' ∈ d'.transactions, t'.matchStatus = .voided → ∃ t ∈ d.transactions,
    t.matchStatus = .voided ∧ t'.asIngested = t.asIngested ∧
      t'.voidedOriginalId = t.voidedOriginalId

/-- The lineage of voided rows goes on while rows, files and voidings stay. -/
theorem Lineage.steady {d d' : Db} (h : Lineage d) (hsteady : d.Steady d') : Lineage d' where
  exceptions := by
    intro e' he'
    obtain ⟨e, he, hcategory, hrecords⟩ := hsteady.exceptions e' he'
    rw [hcategory, hrecords]
    exact (h.exceptions e he).extends hsteady.toExtends
  voided := by
    intro t' ht' hv'
    obtain ⟨t, ht, hv, heq, horiginal⟩ := hsteady.voided t' ht' hv'
    obtain ⟨original, hin, hid, hof⟩ := h.voided t ht hv
    obtain ⟨original', hin', heq'⟩ := hsteady.rows original hin
    refine ⟨original', hin', ?_, hsteady.copyOf heq heq' hof⟩
    rw [horiginal, hid, asIngested_id heq']

theorem extends_of_same {d d' : Db} (ht : d'.transactions = d.transactions)
    (hf : d'.files = d.files) : d.Extends d' where
  rows t hmem := ⟨t, ht ▸ hmem, rfl⟩
  files file at' h := by
    unfold Db.ingestedAt? at h ⊢
    rw [hf]
    exact h

/-- Only exceptions changed, and not in what they record. -/
theorem steady_of_rows {d d' : Db} (ht : d'.transactions = d.transactions)
    (hf : d'.files = d.files)
    (he : ∀ e' ∈ d'.exceptions, ∃ e ∈ d.exceptions, e'.category = e.category ∧
      e'.affectedRecords = e.affectedRecords) : d.Steady d' where
  toExtends := extends_of_same ht hf
  exceptions := he
  voided t hmem hv := ⟨t, ht ▸ hmem, hv, rfl, rfl⟩

theorem steady_of_same {d d' : Db} (ht : d'.transactions = d.transactions)
    (hf : d'.files = d.files) (he : d'.exceptions = d.exceptions) : d.Steady d' :=
  steady_of_rows ht hf fun e hmem => ⟨e, he ▸ hmem, rfl, rfl⟩

/-! ## Writes that leave copies alone -/

/-- Any status but VOIDED may be written. -/
theorem transactionStatus_steady (d : Db) (id : Id) {status : MatchStatus}
    (h : status ≠ .voided) : d.Steady ((RowWrite.transactionStatus id status).apply d) where
  rows t ht := by
    refine ⟨_, List.mem_map_of_mem ht, ?_⟩
    split <;> rfl
  files _ _ hfile := hfile
  exceptions e he := ⟨e, he, rfl, rfl⟩
  voided t' ht' hv := by
    obtain ⟨t, ht, rfl⟩ := Store.mem_updateIn.mp ht'
    by_cases hid : t.id ∈ [id]
    · rw [if_pos hid] at hv
      exact absurd hv h
    · rw [if_neg hid] at hv ⊢
      exact ⟨t, ht, hv, rfl, rfl⟩

theorem ofMatching_steady {w : RowWrite} (h : w.OfMatching) (d : Db) : d.Steady (w.apply d) := by
  cases w with
  | transactionStatus id status => exact transactionStatus_steady d id h
  | insertResult r => exact steady_of_same rfl rfl rfl
  | resultStatus id status reviewer => exact steady_of_same rfl rfl rfl
  | insertClaim c => exact steady_of_same rfl rfl rfl
  | claimResult c r => exact steady_of_same rfl rfl rfl
  | releaseClaim c => exact steady_of_same rfl rfl rfl
  | insertAudit row => exact steady_of_same rfl rfl rfl
  | _ => exact h.elim

/-- What becomes of an exception leaves the copies alone. -/
theorem updateException_steady (d : Db) (id : Id) (columns : ExceptionColumns) :
    d.Steady ((RowWrite.updateException id columns).apply d) := by
  refine steady_of_rows rfl rfl fun e' he' => ?_
  obtain ⟨e, he, rfl⟩ := Store.mem_updateIn.mp he'
  refine ⟨e, he, ?_⟩
  split <;> exact ⟨rfl, rfl⟩

theorem ofHandling_steady {w : RowWrite} (h : w.OfHandling) (d : Db) : d.Steady (w.apply d) := by
  cases w with
  | updateException id columns => exact updateException_steady d id columns
  | insertEvent e => exact steady_of_same rfl rfl rfl
  | insertAudit row => exact steady_of_same rfl rfl rfl
  | _ => exact h.elim

/-- A file that arrives, or is scanned, changes no ingestion time. -/
theorem ingestedAt_insert (d : Db) (f : IngestionFile) {file : Id} {at' : Instant}
    (h : d.ingestedAt? file = some at') :
    ((RowWrite.insertFile f).apply d).ingestedAt? file = some at' := by
  obtain ⟨found, hfound, hat⟩ := Option.map_eq_some_iff.mp h
  show ((d.files ++ [f]).find? (·.id = file)).map (·.ingestedAt) = some at'
  rw [List.find?_append, hfound]
  exact congrArg some hat

theorem ingestedAt_scanned (d : Db) (id : Id) (now : Instant) (file : Id) :
    ((RowWrite.fileScanned id now).apply d).ingestedAt? file = d.ingestedAt? file := by
  show ((Store.updateIn (·.id) [id] (fun f : IngestionFile =>
    { f with anomalyScannedAt := some now }) d.files).find? (·.id = file)).map (·.ingestedAt) = _
  unfold Db.ingestedAt?
  induction d.files with
  | nil => rfl
  | cons f files ih =>
    have hrow : ∀ g : IngestionFile, (if g.id ∈ [id] then { g with anomalyScannedAt := some now }
        else g).id = g.id ∧ (if g.id ∈ [id] then { g with anomalyScannedAt := some now }
        else g).ingestedAt = g.ingestedAt := by
      intro g
      split <;> exact ⟨rfl, rfl⟩
    rw [Store.updateIn, List.map_cons, List.find?_cons, List.find?_cons, (hrow f).1]
    by_cases hid : f.id = file
    · rw [decide_eq_true hid]
      exact congrArg some (hrow f).2
    · rw [decide_eq_false hid]
      exact ih

/-- A row that arrives is nobody's copy yet, and no row changes its rank. -/
theorem ofIntake_steady {w : RowWrite} (h : w.OfIntake) (d : Db) : d.Steady (w.apply d) := by
  cases w with
  | insertFile f =>
    exact ⟨⟨fun t ht => ⟨t, ht, rfl⟩, fun _ _ => ingestedAt_insert d f⟩,
      fun e he => ⟨e, he, rfl, rfl⟩, fun t ht hv => ⟨t, ht, hv, rfl, rfl⟩⟩
  | fileScanned id now =>
    exact ⟨⟨fun t ht => ⟨t, ht, rfl⟩, fun file _ hat => (ingestedAt_scanned d id now file).trans hat⟩,
      fun e he => ⟨e, he, rfl, rfl⟩, fun t ht hv => ⟨t, ht, hv, rfl, rfl⟩⟩
  | insertRaw r => exact steady_of_same rfl rfl rfl
  | insertAlert a => exact steady_of_same rfl rfl rfl
  | insertStat s => exact steady_of_same rfl rfl rfl
  | updateStat key stats => exact steady_of_same rfl rfl rfl
  | insertAudit row => exact steady_of_same rfl rfl rfl
  | _ => exact h.elim

/-- A row that arrives is UNMATCHED. -/
theorem insertTransaction_steady (d : Db) {t : NormalisedTransaction}
    (h : t.matchStatus = .unmatched) : d.Steady ((RowWrite.insertTransaction t).apply d) where
  rows row hrow := ⟨row, List.mem_append_left _ hrow, rfl⟩
  files _ _ hfile := hfile
  exceptions e he := ⟨e, he, rfl, rfl⟩
  voided row hrow hv := by
    rcases List.mem_append.mp hrow with hrow | hrow
    · exact ⟨row, hrow, hv, rfl, rfl⟩
    · rw [List.mem_singleton.mp hrow, h] at hv
      cases hv

/-! ## Operations -/

/-- Sound tables with a lineage. -/
abbrev Traced (n : Nat) (d : Db) : Prop := Sound n d ∧ Lineage d

theorem lineage_grows : Grows (S := schema) fun _ => Lineage := fun _ _ _ _ h => h

theorem traced_grows : Grows (S := schema) Traced := fun _ _ _ hn h => ⟨sound_grows _ _ _ hn h.1, h.2⟩

theorem lineage_of_steady {α : Type} {p : Prog α} {W : RowWrite → Prop} (hp : p.Work W)
    (hW : ∀ w, W w → ∀ d : Db, d.Steady (w.apply d)) : p.Keeps fun _ => Lineage :=
  Keeps.of_writes lineage_grows (fun _ w d hw h => h.steady (hW w hw d)) hp

/-- Candidates that can be traced become exceptions that can. -/
theorem persist_lineage (svc : ExceptionService) {s : Session} {candidates : List Candidate}
    (runId : Option Id) (now : Instant) (batchCount : Nat) (h : Lineage s.view)
    (hcs : ∀ c ∈ candidates, c.Traced s.view) :
    (svc.persist candidates runId now batchCount).wp (fun _ s' => Lineage s'.view)
      (fun _ _ => True) s := by
  have hkeeps := Work.wp_keeps (f := fun d : Db => (d.transactions, d.files)) (fun w d hw => by
    cases w with
    | insertException e => rfl
    | insertEvent e => rfl
    | insertAudit row => rfl
    | _ => exact hw.elim) (svc.persist_ofCreation candidates runId now batchCount) s
  refine ((persist_creates svc candidates runId now batchCount s).and hkeeps).mono ?_
    fun _ _ _ => trivial
  rintro _ s' ⟨⟨rows, -, -, -, hrows, he, -⟩, -, hsame⟩
  obtain ⟨ht, hf⟩ := Prod.mk.inj hsame
  have hext : s.view.Extends s'.view := extends_of_same ht hf
  constructor
  · intro e hmem
    rw [he] at hmem
    rcases List.mem_append.mp hmem with hold | hnew
    · exact (h.exceptions e hold).extends hext
    · obtain ⟨c, hc, hopened⟩ := Store.forall₂_right hrows e hnew
      rw [hopened]
      exact Traceable.extends (hcs c (List.mem_filter.mp hc).1) hext
  · intro t hmem hv
    rw [ht] at hmem
    obtain ⟨original, hin, hid, hof⟩ := h.voided t hmem hv
    exact ⟨original, ht ▸ hin, hid, hext.copyOf rfl rfl hof⟩

/-- Whatever a classification raises is traced, when its candidates are. -/
theorem classifyWith_lineage (svc : ExceptionClassifier)
    {candidates : Db → Except ReconError (List Candidate)} (runId : Id) (now : Instant)
    (hcs : ∀ d cs, candidates d = .ok cs → ∀ c ∈ cs, c.Traced d) :
    (svc.classifyWith candidates runId now).Keeps Traced := by
  refine (leavesMatches_sound ((classifyWith_work _ _ _ _).weaken fun _ =>
    ofCreation_leavesMatches)).and_given fun s _ hs => ?_
  unfold ExceptionClassifier.classifyWith
  rw [bind_eq, wp_bind, wp_tables, bind_eq, wp_bind]
  exact wp_ofExcept (fun cs hok => persist_lineage _ _ _ _ hs (hcs s.view cs hok)) fun _ _ => trivial

theorem classifyUnmatched_lineage (svc : ExceptionClassifier) (bankCode : String) (runId : Id)
    (now : Instant) (asOfDate : Option Date) (staleAfterDays : Option Int) (range : DateRange) :
    (svc.classifyUnmatched bankCode runId now asOfDate staleAfterDays range).Keeps Traced := by
  refine (leavesMatches_sound ((classifyUnmatched_work _ _ _ _ _ _ _).weaken fun _ =>
    ofCreation_leavesMatches)).and_given fun s hsound hs => ?_
  have hpool : ∀ source, ∀ t ∈ s.view.findUnmatched bankCode source range,
      t ∈ s.view.transactions := fun _ t ht => (Db.mem_findUnmatched.mp ht).1
  unfold ExceptionClassifier.classifyUnmatched
  rw [bind_eq, wp_bind, wp_require]
  split
  swap
  · trivial
  rw [bind_eq, wp_bind, wp_tables, bind_eq, wp_bind]
  refine wp_ofExcept (fun found hduplicates => ?_) fun _ _ => trivial
  obtain ⟨duplicates, copies⟩ := found
  simp only [bind_eq, wp_bind, wp_findUnmatched, wp_tables]
  refine wp_ofExcept (fun unmatched hunmatched => ?_) fun _ _ => trivial
  refine persist_lineage _ _ _ _ hs fun c hc => ?_
  rcases List.mem_append.mp hc with hc | hc
  · exact duplicateCandidates_traced hsound.ledger.transactionIds hduplicates c hc
  · exact unmatchedCandidates_traced (fun t ht => hpool .internal t (List.mem_filter.mp ht).1)
      (fun t ht => hpool .external t (List.mem_filter.mp ht).1) hunmatched c hc

theorem classifyRun_traced (svc : ExceptionClassifier) (bankCode : String) (runId : Id)
    (now : Instant) (asOfDate : Option Date) (staleAfterDays : Option Int) (range : DateRange) :
    (svc.classifyRun bankCode runId now asOfDate staleAfterDays range).Keeps Traced :=
  (classifyUnmatched_lineage _ _ _ _ _ _ _).bind fun _ =>
    (classifyWith_lineage _ _ _ fun _ _ => pendingReviewCandidates_traced).bind fun _ =>
    (classifyWith_lineage _ _ _ fun _ _ => matchedCandidates_traced).bind fun _ =>
    (classifyWith_lineage _ _ _ fun _ _ => groupCandidates_traced).bind fun _ => keeps_pure _

theorem classifyIngestionFile_traced (svc : ExceptionClassifier) (file : Id) (now : Instant) :
    (svc.classifyIngestionFile file now).Keeps Traced := by
  refine (leavesMatches_sound ((classifyIngestionFile_work _ _ _).weaken fun _ =>
    ofCreation_leavesMatches)).and_given fun s _ hs => ?_
  unfold ExceptionClassifier.classifyIngestionFile
  rw [bind_eq, wp_bind, wp_tables]
  split
  · trivial
  · exact persist_lineage _ _ _ _ hs formatErrorCandidates_traced

theorem process_traced (p : IngestionPipeline) (up : Upload) (now : Instant) :
    (p.process up now).Keeps Traced := by
  apply process_keeps traced_grows
  · intro n w d hw h
    exact ⟨h.1.of_same ((ofIntake_leavesMatches hw).same d), h.2.steady (ofIntake_steady hw d)⟩
  · intro file n d canonical raw h
    exact ⟨insertTransaction_sound h.1, h.2.steady (insertTransaction_steady d rfl)⟩
  · exact fun file => classifyIngestionFile_traced _ _ _

/-! ## Voiding -/

/-- Voiding a copy for its original keeps the lineage. -/
theorem Lineage.void {n : Nat} {d : Db} (h : Lineage d) (hledger : Ledger n d)
    {copy original : NormalisedTransaction} (hcopy : copy ∈ d.transactions)
    (horiginal : original ∈ d.transactions) (hof : d.CopyOf copy original) :
    d.Extends ((RowWrite.voidTransaction copy.id original.id).apply d) ∧
      Lineage ((RowWrite.voidTransaction copy.id original.id).apply d) := by
  have hext : d.Extends ((RowWrite.voidTransaction copy.id original.id).apply d) := by
    refine ⟨fun t ht => ⟨_, List.mem_map_of_mem ht, ?_⟩, fun _ _ hfile => hfile⟩
    split <;> rfl
  refine ⟨hext, fun e he => (h.exceptions e he).extends hext, fun t' ht' hv => ?_⟩
  obtain ⟨t, ht, rfl⟩ := Store.mem_updateIn.mp ht'
  by_cases hid : t.id ∈ [copy.id]
  · obtain rfl := hledger.transaction_eq ht hcopy (List.mem_singleton.mp hid)
    obtain ⟨original', horiginal', heq⟩ := hext.rows original horiginal
    rw [if_pos hid]
    exact ⟨original', horiginal', congrArg some (asIngested_id heq).symm,
      @Db.Extends.copyOf _ _ hext t _ original _ rfl heq hof⟩
  · rw [if_neg hid] at hv ⊢
    obtain ⟨o, ho, hoid, hof'⟩ := h.voided t ht hv
    obtain ⟨o', ho', heq⟩ := hext.rows o ho
    exact ⟨o', ho', hoid.trans (congrArg some (asIngested_id heq).symm), hext.copyOf rfl heq hof'⟩

/-- The rows of a list of exceptions can be traced. -/
def Read (es : List ReconException) (d : Db) : Prop :=
  Lineage d ∧ ∀ e ∈ es, Traceable d e.category e.affectedRecords

/-- What the resolver has read of its exceptions stays true. -/
theorem Read.steady {es : List ReconException} {d d' : Db} (h : Read es d)
    (hsteady : d.Steady d') : Read es d' :=
  ⟨h.1.steady hsteady, fun e he => (h.2 e he).extends hsteady.toExtends⟩

/-- The writes of an action that settles a pair. -/
def RowWrite.OfPosting (w : RowWrite) : Prop := w.OfSettling ∨ ∃ a, w = .insertAdjustment a

theorem ofPosting_steady {w : RowWrite} (h : w.OfPosting) (d : Db) : d.Steady (w.apply d) := by
  rcases h with h | ⟨a, rfl⟩
  · exact ofMatching_steady (ofSettling_ofMatching h) d
  · exact steady_of_same rfl rfl rfl

/-- Only the action on an internal duplicate voids anything. -/
theorem act_ofPosting (logger : AuditLogger) {e : ReconException} (now : Instant)
    (h : e.category ≠ .duplicateInternal) : (act logger e now).Work RowWrite.OfPosting := by
  unfold act
  split
  · rename_i hcategory
    exact absurd hcategory h
  · exact work_pure _
  · exact work_pure _
  · split
    · exact work_fail _
    · refine Work.bind (record_work _ _) fun _ => Work.bind (readTransaction_work _) fun _ =>
        Work.bind (record_work _ _) fun _ => Work.bind (readTransaction_work _) fun _ =>
        Work.bind ((settlePair_work _ _ _ _ _ _).weaken fun _ => Or.inl) fun _ => ?_
      split
      · exact postFeeAdjustment_work (fun a => Or.inr ⟨a, rfl⟩) _ _ _
      · exact work_pure _

/-- The row that is voided is a copy of the row it is linked to. -/
theorem voidDuplicate_read {es : List ReconException} {records : AffectedRecords} {s : Session}
    (hsound : Sound s.supply s.view) (hread : Read es s.view)
    (h : Traceable s.view .duplicateInternal records) :
    (voidDuplicate records).wp (fun _ s' => Read es s'.view) (fun _ _ => True) s := by
  obtain ⟨copy, hcopy, original, horiginal, hids, hid, hof⟩ := h.duplicate rfl
  unfold voidDuplicate
  rw [bind_eq, wp_bind, wp_record]
  refine ⟨fun copyId hcopyId => ?_, fun _ => trivial⟩
  rw [hids] at hcopyId
  obtain rfl := Option.some.inj hcopyId
  rw [bind_eq, wp_bind]
  refine (readTransaction_spec copy.id s).mono ?_ fun _ _ _ => trivial
  rintro row s' ⟨rfl, hrow, hrowId⟩
  obtain rfl := hsound.ledger.transaction_eq hrow hcopy hrowId
  rw [bind_eq, wp_bind, wp_record]
  refine ⟨fun originalId horiginalId => ?_, fun _ => trivial⟩
  obtain rfl := Option.some.inj (hid.symm.trans horiginalId)
  simp only [bind_eq, wp_bind, wp_tables, wp_require, wp_lockRow, wp_put]
  split
  · rw [Store.Session.view_write]
    obtain ⟨hext, hlineage⟩ := hread.1.void hsound.ledger hcopy horiginal hof
    exact ⟨hlineage, fun e he => (hread.2 e he).extends hext⟩
  · trivial

/-- An action keeps the lineage: what it voids was named by a traced exception. -/
theorem act_traced (logger : AuditLogger) (now : Instant) {es : List ReconException}
    {e : ReconException} (he : e ∈ es) :
    (act logger e now).Keeps fun n d => Sound n d ∧ Read es d := by
  refine (act_sound logger e now).and_given (J := fun _ => Read es) fun s hsound hread => ?_
  by_cases hcategory : e.category = .duplicateInternal
  · have htrace := hread.2 e he
    rw [hcategory] at htrace
    unfold act
    rw [hcategory]
    exact voidDuplicate_read hsound hread htrace
  · have hgrows : Grows (S := schema) fun _ => Read es := fun _ _ _ _ h => h
    exact (Keeps.of_writes hgrows (fun _ _ d hw h => h.steady (ofPosting_steady hw d))
      (act_ofPosting logger now hcategory)).kept s hread

/-- A run of the auto-resolver keeps the lineage, turn by turn. -/
theorem autoResolverRun_traced (logger : AuditLogger) (bankCode : String) (runId : Option Id)
    (now : Instant) : (autoResolverRun logger bankCode runId now).Keeps Traced := by
  refine autoResolverRun_keeps (J := fun es n d => Sound n d ∧ Read es d) ?_ ?_ ?_ ?_ ?_
  · exact fun es n n' d hn h => ⟨sound_grows _ _ _ hn h.1, h.2⟩
  · intro es n w d hw h
    exact ⟨h.1.of_same ((ofHandling_leavesMatches hw).same d), h.2.steady (ofHandling_steady hw d)⟩
  · exact fun n d h => ⟨h.1, h.2, fun e he => h.2.exceptions e
      (List.mem_filter.mp ((List.mem_insertionSort _).mp he)).1⟩
  · exact fun es n d h => ⟨h.1, h.2.1⟩
  · exact fun es e he => act_traced logger now he

/-- Every operation keeps the lineage. -/
theorem Operation.traced (op : Operation) : op.program.Keeps Traced := by
  have hmatching : ∀ {α : Type} {p : Prog α}, p.Keeps Sound → p.Work RowWrite.OfMatching →
      p.Keeps Traced := fun hsound hwork =>
    hsound.and (lineage_of_steady hwork fun _ hw => ofMatching_steady hw)
  cases op with
  | ingest p up now => exact (process_traced p up now).bind fun _ => keeps_pure _
  | level o bankCode l => exact hmatching (level_sound l) (levelProgram_work l)
  | classify svc bankCode runId now asOfDate staleAfterDays range =>
    exact (classifyRun_traced _ _ _ _ _ _ _).bind fun _ => keeps_pure _
  | autoResolve logger bankCode runId now =>
    exact (autoResolverRun_traced _ _ _ _).bind fun _ => keeps_pure _
  | escalate logger bankCode runId now =>
    refine (escalate_keeps traced_grows ?_ (autoResolverRun_traced _ _ _ _)).bind
      fun _ => keeps_pure _
    intro n w d hw h
    have hhandled := ofTriage_ofHandling hw
    exact ⟨h.1.of_same ((ofHandling_leavesMatches hhandled).same d),
      h.2.steady (ofHandling_steady hhandled d)⟩
  | handle logger id principal now h =>
    exact (leavesMatches_sound ((handling_work _ _ _ _ h).weaken fun _ =>
      ofHandling_leavesMatches)).and (lineage_of_steady (handling_work _ _ _ _ h)
        fun _ hw => ofHandling_steady hw)
  | confirm logger id reviewer note now =>
    exact (hmatching (confirmMatch_sound _ _ _ _ _ _) ((confirmMatch_work _ _ _ _ _ _).weaken
      fun _ => ofSettling_ofMatching)).bind fun _ => keeps_pure _
  | reject logger id reviewer reason now =>
    exact (hmatching (rejectMatch_sound _ _ _ _ _) (rejectMatch_work _ _ _ _ _)).bind
      fun _ => keeps_pure _
  | create logger internalId externalId user note now =>
    exact (hmatching (createMatch_sound _ _ _ _ _ _) ((createMatch_work _ _ _ _ _ _).weaken
      fun _ => levelWrite_ofMatching)).bind fun _ => keeps_pure _
  | unmatch logger id user reason now =>
    exact (hmatching (unmatch_sound _ _ _ _ _) (unmatch_work _ _ _ _ _)).bind fun _ => keeps_pure _

/-- Nothing has happened to the transactions, and no exception was raised. -/
structure Unclassified (c : Committed schema) : Prop extends Untouched c where
  exceptions : c.db.exceptions = []

theorem operate_traced {c : Committed schema} (h : Unclassified c) (ops : List Operation) :
    Traced (operate c ops).supply (operate c ops).db := by
  refine Keeps.history traced_grows Operation.traced ⟨h.sound, ?_, ?_⟩ ops
  · rw [h.exceptions]
    exact fun e he => absurd he List.not_mem_nil
  · intro t ht hv
    rw [h.unmatched t ht] at hv
    cases hv

/-! ## The last copy -/

/-- Among the rows like `t`, the first one is not VOIDED. -/
theorem Lineage.kept {d : Db} (h : Lineage d) {t : NormalisedTransaction} (ht : t ∈ d.transactions) :
    ∃ kept ∈ d.transactions, kept.Alike t ∧ kept.matchStatus ≠ .voided := by
  obtain ⟨likes, hlikes⟩ : ∃ likes : List NormalisedTransaction,
      ∀ u, u ∈ likes ↔ u ∈ d.transactions ∧ u.Alike t := by
    classical
    exact ⟨d.transactions.filter fun u => u.Alike t, fun u => by simp⟩
  cases hmin : likes.argmin d.duplicateRank with
  | none =>
    have hself : t ∈ likes := (hlikes t).mpr ⟨ht, asIngested_alike rfl⟩
    rw [List.argmin_eq_none.mp hmin] at hself
    exact absurd hself List.not_mem_nil
  | some first =>
    obtain ⟨hin, hlike⟩ := (hlikes first).mp (List.argmin_mem hmin)
    refine ⟨first, hin, hlike, fun hv => ?_⟩
    -- An original of the first row would come before it.
    obtain ⟨original, horiginal, -, hof⟩ := h.voided first hin hv
    have hmember := (hlikes original).mpr ⟨horiginal, hof.alike.symm.trans hlike⟩
    exact absurd (List.le_of_mem_argmin hmember hmin) (not_le_of_gt hof.later)

/-- **The last copy.** After every history, among the rows that agree with a row on source, bank,
reference, amount, currency, direction and date one is not VOIDED, and a VOIDED row is linked to
another of them. -/
theorem voiding_keeps_copy {c : Committed schema} (h : Unclassified c) (ops : List Operation) :
    ∀ t ∈ (operate c ops).db.transactions,
      (∃ kept ∈ (operate c ops).db.transactions, kept.Alike t ∧ kept.matchStatus ≠ .voided) ∧
      (t.matchStatus = .voided → ∃ original ∈ (operate c ops).db.transactions,
        t.voidedOriginalId = some original.id ∧ original.id ≠ t.id ∧ original.Alike t) := by
  obtain ⟨hsound, hlineage⟩ := operate_traced h ops
  refine fun t ht => ⟨hlineage.kept ht, fun hv => ?_⟩
  obtain ⟨original, horiginal, hid, hof⟩ := hlineage.voided t ht hv
  refine ⟨original, horiginal, hid, fun heq => ?_, hof.alike.symm⟩
  obtain rfl := hsound.ledger.transaction_eq horiginal ht heq
  exact lt_irrefl _ hof.later

/-! A file whose copy arrives after it with an earlier ingestion time: the row of the first file is the
copy then. -/

def emptyDay : Committed schema := { db := {}, supply := 1 }

theorem emptyDay_unclassified : Unclassified emptyDay := by
  constructor
  case exceptions => rfl
  constructor
  case results => rfl
  case claims => rfl
  all_goals decide

def ledgerUpload (contentSha256 : String) : Upload :=
  { dayUpload [dayRow 1 "CR" []] with source := .internal, contentSha256 := contentSha256 }

def copiedFile : List Operation :=
  [.ingest dayPipeline (ledgerUpload "0001") 20, .ingest dayPipeline (ledgerUpload "0002") 10,
    .classify dayPipeline.classifier "HDFC" 1 30 none none {},
    .autoResolve dayPipeline.classifier.logger "HDFC" (some 1) 40]

example : (operate emptyDay copiedFile).db.transactions.map
    (fun t => (t.id, t.voidedOriginalId)) = [(3, some 8), (8, none)] := by decide +kernel

theorem voiding_keeps_copy_copiedFile :
    ∃ t ∈ (operate emptyDay copiedFile).db.transactions, t.matchStatus = .voided ∧
      (∃ kept ∈ (operate emptyDay copiedFile).db.transactions,
        kept.Alike t ∧ kept.matchStatus ≠ .voided) ∧
      (t.matchStatus = .voided → ∃ original ∈ (operate emptyDay copiedFile).db.transactions,
        t.voidedOriginalId = some original.id ∧ original.id ≠ t.id ∧ original.Alike t) := by
  have hvoided : ∃ t ∈ (operate emptyDay copiedFile).db.transactions, t.matchStatus = .voided := by
    decide +kernel
  obtain ⟨t, ht, hv⟩ := hvoided
  exact ⟨t, ht, hv, voiding_keeps_copy emptyDay_unclassified copiedFile t ht⟩

end Recon
