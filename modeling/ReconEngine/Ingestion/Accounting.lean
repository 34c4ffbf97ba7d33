import ReconEngine.Ingestion.Pipeline

/-!
# What becomes of the rows of a file

A raw row is accounted for when it is the source of one transaction or a FORMAT_ERROR covers it.
Quarantined rows are covered and rows that normalise are sources. A row that parses and that the
normaliser then rejects is counted and keeps the status PARSED, and nothing looks at it again: so
every row of a file is accounted for exactly when the normaliser rejects none of its valid rows.

**The law** (`rows_accounted_iff`): of a file that the pipeline takes, all rows it stores are
accounted for if and only if the normaliser rejects none of the valid ones. The proof follows a row
through the steps of the pipeline, each of which leaves alone what the earlier ones did.

**What it does not establish.** That a transaction says what its row says, or that an exception is
looked at. A file that is refused stores no rows, and there is nothing to account for.
-/

set_option autoImplicit false

namespace Recon

open Store
open Store.Prog hiding pure bind

/-! ## Accounting -/

/-- The transactions whose source is the raw row. -/
def Db.madeFrom (d : Db) (raw : Id) : List NormalisedTransaction :=
  d.transactions.filter (·.rawTransactionId = raw)

/-- The exception is a FORMAT_ERROR about the row: its own, or that of its file, which is about the
quarantined rows of the file. -/
def ReconException.covers (e : ReconException) (row : RawTransaction) : Prop :=
  e.category = .formatError ∧ (row.id ∈ e.affectedRecords.rawTransactionIds ∨
    e.dedupeKey = .file row.ingestionFileId ∧ row.parseStatus = .quarantined)

instance (e : ReconException) (row : RawTransaction) : Decidable (e.covers row) :=
  inferInstanceAs (Decidable (_ ∧ _))

/-- The row is the source of a transaction or covered, and the source of one at most. -/
def Db.Accounted (d : Db) (row : RawTransaction) : Prop :=
  ((d.madeFrom row.id).length = 1 ∨ ∃ e ∈ d.exceptions, e.covers row) ∧
    (d.madeFrom row.id).length ≤ 1

/-- The identifiers that the rows of the store name have been handed out. -/
structure Db.NamesBelow (d : Db) (n : Nat) : Prop where
  raws : ∀ row ∈ d.rawTransactions, row.ingestionFileId < n
  sources : ∀ t ∈ d.transactions, t.rawTransactionId < n
  keys : ∀ e ∈ d.exceptions, ∀ i, e.dedupeKey = .file i ∨ e.dedupeKey = .raw i → i < n
  affected : ∀ e ∈ d.exceptions, ∀ i ∈ e.affectedRecords.rawTransactionIds, i < n

/-! ## The rows stored -/

/-- What the steps of the pipeline leave of the tables that accounting looks at. -/
def Db.intake (d : Db) : List RawTransaction × List NormalisedTransaction × List ReconException :=
  (d.rawTransactions, d.transactions, d.exceptions)

/-- Every row of a file becomes one raw row, with the status that its errors give it. -/
theorem persistRows_spec (file : IngestionFile) : ∀ (rows : List ParsedRow) (s : Session),
    (persistRows file rows).wp (fun _ s' => ∃ raws : List RawTransaction,
        s.supply ≤ s'.supply ∧ (raws.map (·.id)).Nodup ∧
        (∀ raw ∈ raws, s.supply ≤ raw.id ∧ raw.id < s'.supply) ∧
        List.Forall₂ (fun row raw => raw = rawTransaction file row raw.id) rows raws ∧
        s'.view.intake = (s.view.rawTransactions ++ raws, s.view.transactions, s.view.exceptions) ∧
        s'.view.files = s.view.files)
      (fun _ _ => True) s
  | [], s => ⟨[], le_refl _, List.nodup_nil, fun _ h => absurd h List.not_mem_nil, .nil,
      by rw [List.append_nil]; rfl, rfl⟩
  | row :: rows, s => by
    unfold persistRows
    rw [bind_eq, wp_bind, wp_newId, bind_eq, wp_bind, wp_put]
    refine (persistRows_spec file rows _).mono ?_ fun _ _ _ => trivial
    rintro _ s' ⟨raws, hsupply, hids, hfresh, hrows, hintake, hfiles⟩
    rw [Session.supply_write, Session.supply_take] at hsupply hfresh
    rw [Session.view_write, Session.view_take] at hintake hfiles
    refine ⟨rawTransaction file row s.supply :: raws, Nat.le_of_succ_le hsupply, ?_, ?_,
      .cons rfl hrows, ?_, hfiles⟩
    · rw [List.map_cons, List.nodup_cons]
      refine ⟨fun hmem => ?_, hids⟩
      obtain ⟨raw, hraw, hid⟩ := List.mem_map.mp hmem
      exact Nat.ne_of_gt (hfresh raw hraw).1 hid
    · intro raw hraw
      rcases List.mem_cons.mp hraw with rfl | hraw
      · exact ⟨le_refl _, hsupply⟩
      · exact ⟨Nat.le_of_succ_le (hfresh raw hraw).1, (hfresh raw hraw).2⟩
    · rw [hintake]
      exact Prod.ext (List.append_assoc _ _ _) rfl

/-- The file is new, and its rows are stored as they were masked. -/
theorem ingestFile_spec (p : IngestionPipeline) (up : Upload) (now : Instant) (s : Session) :
    (p.ingestFile up now).wp (fun r s' => ∃ rows raws, up.parsed = .ok rows ∧
        r.2.ingestionFileId = r.1.id ∧ s.supply ≤ r.1.id ∧
        (raws.map (·.id)).Nodup ∧ (∀ raw ∈ raws, s.supply ≤ raw.id ∧ raw.id < s'.supply) ∧
        List.Forall₂ (fun row raw => raw = rawTransaction r.1 row raw.id)
          (rows.map fun row => (maskRow p.maskPans row).1) raws ∧
        s'.view.intake = (s.view.rawTransactions ++ raws, s.view.transactions, s.view.exceptions))
      (fun _ _ => True) s := by
  unfold IngestionPipeline.ingestFile
  rw [bind_eq, wp_bind, wp_require]
  split
  swap
  · trivial
  rw [bind_eq, wp_bind]
  refine wp_ofExcept (fun rows hrows => ?_) fun _ _ => trivial
  rw [bind_eq, wp_bind]
  unfold IngestionPipeline.createIngestionFile
  simp only [bind_eq, wp_bind, wp_tables, wp_require, wp_newId, wp_lockRow, wp_put, pure_eq, wp_pure]
  split
  swap
  · trivial
  split
  swap
  · trivial
  refine (persistRows_spec _ _ _).mono ?_ fun _ _ _ => trivial
  rintro _ s' ⟨raws, hsupply, hids, hfresh, hstored, hintake, _⟩
  rw [Session.supply_write, Session.supply_take] at hsupply hfresh
  rw [Session.view_write, Session.view_take] at hintake
  rw [List.map_map] at hstored
  exact ⟨rows, raws, hrows, trivial, le_refl _, hids,
    fun raw hraw => ⟨Nat.le_of_succ_le (hfresh raw hraw).1, (hfresh raw hraw).2⟩, hstored, hintake⟩

/-! ## The rows normalised -/

section

variable {lib : TextLibrary} {config : BankFormats} {formatType : SourceFormat} {source : Source}

/-- The row becomes a transaction. -/
def RawTransaction.normalises (lib : TextLibrary) (config : BankFormats)
    (formatType : SourceFormat) (source : Source) (raw : RawTransaction) : Bool :=
  (normalise lib raw.parsedRow config formatType source).isOk

/-- The transactions come from the rows that normalise; the others are rejections. -/
theorem normaliseRows_ok : ∀ {raws : List RawTransaction}
    {pending : List (CanonicalTransaction × Id)} {failures : List String},
    normaliseRows lib config formatType source raws = .ok (pending, failures) →
      pending.map (·.2) = (raws.filter (·.normalises lib config formatType source)).map (·.id) ∧
        ∀ raw ∈ raws, raw.normalises lib config formatType source = true ∨
          ∃ message, normalise lib raw.parsedRow config formatType source = .error (.rejected message)
  | [], pending, failures, h => by
    cases h
    exact ⟨rfl, fun _ h => absurd h List.not_mem_nil⟩
  | raw :: raws, pending, failures, h => by
    unfold normaliseRows at h
    cases hrow : normalise lib raw.parsedRow config formatType source with
    | ok canonical =>
      rw [hrow] at h
      obtain ⟨⟨pending', failures'⟩, hrest, h⟩ := except_bind_ok h
      cases h
      obtain ⟨hpending, hall⟩ := normaliseRows_ok hrest
      have hyes : raw.normalises lib config formatType source = true := by
        unfold RawTransaction.normalises
        rw [hrow]
        rfl
      refine ⟨by rw [List.map_cons, hpending, List.filter_cons_of_pos hyes, List.map_cons], ?_⟩
      intro raw' hraw'
      rcases List.mem_cons.mp hraw' with rfl | hraw'
      · exact .inl hyes
      · exact hall raw' hraw'
    | error failure =>
      rw [hrow] at h
      cases failure with
      | raised e => cases h
      | rejected message =>
        obtain ⟨⟨pending', failures'⟩, hrest, h⟩ := except_bind_ok h
        cases h
        obtain ⟨hpending, hall⟩ := normaliseRows_ok hrest
        have hno : ¬ raw.normalises lib config formatType source = true := by
          unfold RawTransaction.normalises
          rw [hrow]
          exact Bool.false_ne_true
        refine ⟨by rw [hpending, List.filter_cons_of_neg hno], ?_⟩
        intro raw' hraw'
        rcases List.mem_cons.mp hraw' with rfl | hraw'
        · exact .inr ⟨message, hrow⟩
        · exact hall raw' hraw'

end

/-- Every canonical row becomes one transaction, of its raw row. -/
theorem saveMany_spec (file : Id) : ∀ (pending : List (CanonicalTransaction × Id)) (s : Session),
    (saveMany file pending).wp (fun _ s' => ∃ txns : List NormalisedTransaction,
        s.supply ≤ s'.supply ∧ txns.map (·.rawTransactionId) = pending.map (·.2) ∧
        s'.view.intake = (s.view.rawTransactions, s.view.transactions ++ txns, s.view.exceptions))
      (fun _ _ => True) s
  | [], s => ⟨[], le_refl _, rfl, by rw [List.append_nil]; rfl⟩
  | (canonical, raw) :: pending, s => by
    unfold saveMany
    rw [bind_eq, wp_bind, wp_newId, bind_eq, wp_bind, wp_put]
    refine (saveMany_spec file pending _).mono ?_ fun _ _ _ => trivial
    rintro _ s' ⟨txns, hsupply, hsources, hintake⟩
    rw [Session.supply_write, Session.supply_take] at hsupply
    rw [Session.view_write, Session.view_take] at hintake
    refine ⟨normalisedTransaction file canonical raw s.supply :: txns, Nat.le_of_succ_le hsupply,
      ?_, ?_⟩
    · rw [List.map_cons, hsources]
      rfl
    · rw [hintake]
      exact Prod.ext rfl (Prod.ext (List.append_assoc _ _ _) rfl)

/-! ## The rows quarantined -/

theorem mem_quarantined {d : Db} {file : Id} {row : RawTransaction} :
    row ∈ d.quarantined file ↔
      row ∈ d.rawTransactions ∧ row.ingestionFileId = file ∧ row.parseStatus = .quarantined := by
  rw [Db.quarantined, (List.perm_insertionSort _ _).mem_iff, List.mem_filter, decide_eq_true_iff]

theorem mem_parsedRaw {d : Db} {file : Id} {row : RawTransaction} :
    row ∈ d.parsedRaw file ↔
      row ∈ d.rawTransactions ∧ row.ingestionFileId = file ∧ row.parseStatus = .parsed := by
  rw [Db.parsedRaw, (List.perm_insertionSort _ _).mem_iff, List.mem_filter, decide_eq_true_iff]

/-- What is opened for the candidates covers what they name. -/
theorem opened_covers {cs : List Candidate} {es : List ReconException}
    {f : Candidate → RoutingDecision} {now : Instant} {row : RawTransaction}
    (h : List.Forall₂ (fun c e => e = ExceptionService.openException c (f c) none now e.id) cs es) :
    (∃ e ∈ es, e.covers row) ↔ ∃ c ∈ cs, c.category = .formatError ∧
      (row.id ∈ c.affectedRecords.rawTransactionIds ∨
        c.dedupeKey = .file row.ingestionFileId ∧ row.parseStatus = .quarantined) := by
  induction h with
  | nil => simp
  | @cons c e cs es he _ ih =>
    have hone : e.covers row ↔ c.category = .formatError ∧
        (row.id ∈ c.affectedRecords.rawTransactionIds ∨
          c.dedupeKey = .file row.ingestionFileId ∧ row.parseStatus = .quarantined) := by
      rw [he]
      exact Iff.rfl
    rw [List.exists_mem_cons_iff, List.exists_mem_cons_iff, ih, hone]

/-- The candidates of a file name its quarantined rows and no other row. -/
theorem formatErrorCandidates_names (svc : ExceptionClassifier) {file : IngestionFile} {d : Db}
    {row : RawTransaction} (hrow : row ∈ d.rawTransactions) (hfile : row.ingestionFileId = file.id)
    (hids : ∀ other ∈ d.rawTransactions, other.ingestionFileId = file.id → other.id = row.id →
      other = row) :
    (∃ c ∈ svc.formatErrorCandidates file (d.quarantined file.id), c.category = .formatError ∧
      (row.id ∈ c.affectedRecords.rawTransactionIds ∨
        c.dedupeKey = .file row.ingestionFileId ∧ row.parseStatus = .quarantined)) ↔
      row.parseStatus = .quarantined := by
  unfold ExceptionClassifier.formatErrorCandidates
  split
  · simp [hfile]
  · constructor
    · rintro ⟨c, hc, _, hnames⟩
      obtain ⟨raw, hraw, rfl⟩ := List.mem_map.mp hc
      rcases hnames with hmem | ⟨hkey, hstatus⟩
      · obtain ⟨hin, hof, hstatus⟩ := mem_quarantined.mp hraw
        exact hids raw hin hof (List.mem_singleton.mp hmem).symm ▸ hstatus
      · exact hstatus
    · intro hstatus
      exact ⟨_, List.mem_map_of_mem (mem_quarantined.mpr ⟨hrow, hfile, hstatus⟩), rfl,
        .inl (List.mem_singleton_self _)⟩

/-- The keys of the candidates name the file or rows of it. -/
theorem formatErrorCandidates_keys (svc : ExceptionClassifier) {file : IngestionFile} {d : Db}
    {c : Candidate} (hc : c ∈ svc.formatErrorCandidates file (d.quarantined file.id)) :
    c.dedupeKey = .file file.id ∨ ∃ row ∈ d.rawTransactions,
      row.ingestionFileId = file.id ∧ c.dedupeKey = .raw row.id := by
  unfold ExceptionClassifier.formatErrorCandidates at hc
  split at hc
  · exact .inl (List.mem_singleton.mp hc ▸ rfl)
  · obtain ⟨row, hrow, rfl⟩ := List.mem_map.mp hc
    obtain ⟨hin, hfile, -⟩ := mem_quarantined.mp hrow
    exact .inr ⟨row, hin, hfile, rfl⟩

/-- When no exception has its key yet, every candidate is raised. -/
theorem freshCandidates_all {d : Db} {cs : List Candidate}
    (h : ∀ c ∈ cs, ∀ e ∈ d.exceptions, e.dedupeKey ≠ c.dedupeKey) : d.freshCandidates cs = cs := by
  refine List.filter_eq_self.mpr fun c hc => ?_
  rw [Bool.not_eq_true', List.contains_eq_mem, decide_eq_false_iff_not]
  intro hmem
  obtain ⟨e, he, heq⟩ := List.mem_map.mp (List.mem_filter.mp hmem).1
  exact h c hc e he heq

/-! ## What the later steps leave alone -/

/-- The write leaves raw rows, transactions and exceptions alone. -/
def RowWrite.LeavesIntake (w : RowWrite) : Prop := ∀ d, (w.apply d).intake = d.intake

/-- The writes of the steps after classification: alerts, statistics, the stamp of the scan and
audit entries. -/
def RowWrite.OfScan : RowWrite → Prop
  | .insertAlert _ | .insertStat _ | .updateStat .. | .fileScanned .. | .insertAudit _ => True
  | _ => False

theorem ofScan_leavesIntake {w : RowWrite} (h : w.OfScan) : w.LeavesIntake := by
  intro d
  cases w with
  | insertAlert a => rfl
  | insertStat s => rfl
  | updateStat key stats => rfl
  | fileScanned id now => rfl
  | insertAudit row => rfl
  | _ => exact h.elim

theorem append_ofScan (logger : AuditLogger) (event : AuditEvent) :
    (logger.append event).Work RowWrite.OfScan := by
  refine (logger.append_work event).weaken ?_
  rintro _ ⟨row, rfl⟩
  trivial

theorem raiseAlerts_ofScan (drafts : List AlertDraft) (now : Instant) :
    (raiseAlerts drafts now).Work RowWrite.OfScan := by
  refine Work.foldlM drafts 0 fun raised draft _ => Work.bind ?_ fun _ => work_pure _
  refine Work.bind work_tables fun _ => ?_
  split
  · exact work_pure _
  refine Work.bind (work_lockRow _) fun _ => Work.bind work_tables fun _ => ?_
  split
  · exact work_pure _
  exact Work.bind work_newId fun _ => Work.bind (work_put.mpr trivial) fun _ => work_pure _

theorem eachStat_ofScan {one : CounterpartyStat → Prog Unit}
    (h : ∀ stat, (one stat).Work RowWrite.OfScan) :
    ∀ stats, (eachStat one stats).Work RowWrite.OfScan
  | [] => work_pure _
  | stat :: stats => Work.bind (h stat) fun _ => eachStat_ofScan h stats

theorem scanIngestionFile_ofScan (svc : AnomalyService) (fileId : Id) (now : Instant) :
    (svc.scanIngestionFile fileId now).Work RowWrite.OfScan := by
  refine Work.bind (work_lockRow _) fun _ => Work.bind work_tables fun d => ?_
  split
  · exact work_fail _
  split
  · exact work_pure _
  refine Work.bind work_tables fun _ => Work.bind ?_ fun _ => Work.bind work_tables fun _ =>
    Work.bind ?_ fun _ => Work.bind (work_put.mpr trivial) fun _ =>
    Work.bind (raiseAlerts_ofScan _ _) fun _ => work_pure _
  · exact Work.foldlM _ _ fun _ _ _ => Work.bind (work_tablesMarking _) fun _ => work_pure _
  · refine Work.bind work_tables fun _ => Work.bind (work_require _ _) fun _ =>
      Work.bind (eachStat_ofScan ?_ _) fun _ => eachStat_ofScan ?_ _
    · exact fun stat => Work.bind (work_lockRow _) fun _ => work_put.mpr trivial
    · exact fun stat => Work.bind (work_lockRow _) fun _ => Work.bind work_tables fun _ =>
        Work.bind (work_require _ _) fun _ => work_put.mpr trivial

theorem append_leavesIntake (logger : AuditLogger) (event : AuditEvent) :
    (logger.append event).Work RowWrite.LeavesIntake :=
  (append_ofScan logger event).weaken fun _ => ofScan_leavesIntake

theorem raiseAlerts_leavesIntake (drafts : List AlertDraft) (now : Instant) :
    (raiseAlerts drafts now).Work RowWrite.LeavesIntake :=
  (raiseAlerts_ofScan drafts now).weaken fun _ => ofScan_leavesIntake

theorem scanIngestionFile_leavesIntake (svc : AnomalyService) (fileId : Id) (now : Instant) :
    (svc.scanIngestionFile fileId now).Work RowWrite.LeavesIntake :=
  (scanIngestionFile_ofScan svc fileId now).weaken fun _ => ofScan_leavesIntake

/-! ## The pipeline -/

/-- What the pipeline leaves: the new rows, the transactions made of those that normalise, and
exceptions that cover those that were quarantined. -/
structure Intake (p : IngestionPipeline) (up : Upload) (d : Db) (n : Nat) (file : IngestionFile)
    (raws : List RawTransaction) (d' : Db) : Prop where
  fresh : n ≤ file.id
  ids : (raws.map (·.id)).Nodup
  new : ∀ raw ∈ raws, n ≤ raw.id
  stored : d'.rawTransactions = d.rawTransactions ++ raws
  ofFile : ∀ raw ∈ raws, raw.ingestionFileId = file.id
  status : ∀ raw ∈ raws, raw.parseStatus = .parsed ∨ raw.parseStatus = .quarantined
  sources : ∃ txns, d'.transactions = d.transactions ++ txns ∧
    (txns.map (·.rawTransactionId)).Perm ((raws.filter fun raw => raw.parseStatus = .parsed ∧
      raw.normalises p.lib up.config up.formatType up.source = true).map (·.id))
  rejected : ∀ raw ∈ raws, raw.parseStatus = .parsed →
    raw.normalises p.lib up.config up.formatType up.source = true ∨
      ∃ message, normalise p.lib raw.parsedRow up.config up.formatType up.source =
        .error (.rejected message)
  covered : ∃ es, d'.exceptions = d.exceptions ++ es ∧
    ∀ raw ∈ raws, (∃ e ∈ es, e.covers raw) ↔ raw.parseStatus = .quarantined

/-- Later steps leave the raw rows and transactions as they are. -/
theorem intake_wp {α : Type} {p : Prog α} (hp : p.Work RowWrite.LeavesIntake) (s : Session) :
    p.wp (fun _ s' => s'.view.intake = s.view.intake) (fun _ _ => True) s :=
  (Work.wp_keeps (f := Db.intake) (fun _ d hw => hw d) hp s).mono (fun _ _ h => h.2)
    fun _ _ _ => trivial

/-- Normalising the file makes a transaction of each parsed row that normalises. -/
theorem normaliseIngestionFile_spec (lib : TextLibrary) (file : Id) (up : Upload) (s : Session) :
    (normaliseIngestionFile lib file up).wp (fun _ s' => ∃ txns,
        s.supply ≤ s'.supply ∧
        txns.map (·.rawTransactionId) = ((s.view.parsedRaw file).filter
          (·.normalises lib up.config up.formatType up.source)).map (·.id) ∧
        (∀ raw ∈ s.view.parsedRaw file,
          raw.normalises lib up.config up.formatType up.source = true ∨
            ∃ message, normalise lib raw.parsedRow up.config up.formatType up.source =
              .error (.rejected message)) ∧
        s'.view.intake = (s.view.rawTransactions, s.view.transactions ++ txns, s.view.exceptions))
      (fun _ _ => True) s := by
  unfold normaliseIngestionFile
  rw [bind_eq, wp_bind, wp_tables, bind_eq, wp_bind]
  refine wp_ofExcept (fun r hr => ?_) fun _ _ => trivial
  obtain ⟨pending, failures⟩ := r
  obtain ⟨hpending, hall⟩ := normaliseRows_ok hr
  dsimp only
  rw [bind_eq, wp_bind]
  refine (saveMany_spec file pending s).mono ?_ fun _ _ _ => trivial
  rintro _ s' ⟨txns, hsupply, hsources, hintake⟩
  exact ⟨txns, hsupply, hsources.trans hpending, hall, hintake⟩

/-- Raising exceptions leaves raw rows and transactions alone. -/
theorem ofCreation_apply (w : RowWrite) (d : Db) (h : w.OfCreation) :
    ((w.apply d).rawTransactions, (w.apply d).transactions) =
      (d.rawTransactions, d.transactions) := by
  cases w with
  | insertException e => rfl
  | insertEvent e => rfl
  | insertAudit row => rfl
  | _ => exact h.elim

/-- Classifying a file whose keys are new covers its quarantined rows. -/
theorem classifyIngestionFile_spec (svc : ExceptionClassifier) (file : Id) (now : Instant)
    (s : Session)
    (hnew : ∀ e ∈ s.view.exceptions, e.dedupeKey ≠ .file file ∧
      ∀ row ∈ s.view.rawTransactions, row.ingestionFileId = file → e.dedupeKey ≠ .raw row.id) :
    (svc.classifyIngestionFile file now).wp (fun _ s' => ∃ es,
        s'.view.intake = (s.view.rawTransactions, s.view.transactions, s.view.exceptions ++ es) ∧
        ∀ row ∈ s.view.rawTransactions, row.ingestionFileId = file →
          (∀ other ∈ s.view.rawTransactions, other.ingestionFileId = file → other.id = row.id →
            other = row) → ((∃ e ∈ es, e.covers row) ↔ row.parseStatus = .quarantined))
      (fun _ _ => True) s := by
  unfold ExceptionClassifier.classifyIngestionFile
  rw [bind_eq, wp_bind, wp_tables]
  split
  · trivial
  rename_i found hfind
  obtain rfl : found.id = file := by simpa using List.find?_some hfind
  have hkeeps := Work.wp_keeps (f := fun d : Db => (d.rawTransactions, d.transactions))
    ofCreation_apply (svc.persist_ofCreation (svc.formatErrorCandidates found (s.view.quarantined found.id)) none now
      (s.view.quarantined found.id).length) s
  refine ((persist_creates _ _ none now _ s).and hkeeps).mono ?_ fun _ _ _ => trivial
  rintro _ s' ⟨⟨es, _, _, _, hopened, hexceptions, _⟩, _, hsame⟩
  obtain ⟨hraws, htxns⟩ := Prod.mk.inj hsame
  rw [freshCandidates_all] at hopened
  · refine ⟨es, Prod.ext hraws (Prod.ext htxns hexceptions), fun row hrow hfile hids => ?_⟩
    exact (opened_covers hopened).trans (formatErrorCandidates_names svc hrow hfile hids)
  · intro c hc e he
    rcases formatErrorCandidates_keys svc hc with hkey | ⟨row, hrow, hfile, hkey⟩
    · exact hkey ▸ (hnew e he).1
    · exact hkey ▸ (hnew e he).2 row hrow hfile

/-- What an upload leaves: its rows, their transactions, and exceptions for those that were
quarantined. -/
theorem process_spec (p : IngestionPipeline) (up : Upload) (now : Instant) (s : Session)
    (h : s.view.NamesBelow s.supply) :
    (p.process up now).wp (fun out s' => ∃ rows file raws, up.parsed = .ok rows ∧
        out.result.ingestionFileId = file.id ∧
        List.Forall₂ (fun row raw => raw = rawTransaction file row raw.id)
          (rows.map fun row => (maskRow p.maskPans row).1) raws ∧
        Intake p up s.view s.supply file raws s'.view) (fun _ _ => True) s := by
  unfold IngestionPipeline.process
  rw [bind_eq, wp_bind]
  refine (ingestFile_spec p up now s).mono ?_ fun _ _ _ => trivial
  rintro ⟨file, result⟩ s₁ ⟨rows, raws, hrows, hresult, hfile, hids, hfresh, hstored, hintake₁⟩
  rw [Db.intake, Prod.mk.injEq, Prod.mk.injEq] at hintake₁
  obtain ⟨hraws₁, htxns₁, hexceptions₁⟩ := hintake₁
  have hrow : ∀ raw ∈ raws, ∃ row, raw = rawTransaction file row raw.id := by
    intro raw hraw
    obtain ⟨row, -, heq⟩ := forall₂_right hstored raw hraw
    exact ⟨row, heq⟩
  have hofFile : ∀ raw ∈ raws, raw.ingestionFileId = file.id := by
    intro raw hraw
    obtain ⟨row, heq⟩ := hrow raw hraw
    rw [heq]
    rfl
  have hstatus : ∀ raw ∈ raws, raw.parseStatus = .parsed ∨ raw.parseStatus = .quarantined := by
    intro raw hraw
    obtain ⟨row, heq⟩ := hrow raw hraw
    rw [heq]
    unfold rawTransaction
    by_cases hvalid : row.isValid = true <;> simp [hvalid]
  dsimp only
  -- The rows of the file are the new ones: older rows name older files.
  have hmine : ∀ row ∈ s₁.view.rawTransactions, row.ingestionFileId = file.id → row ∈ raws := by
    intro row hmem hof
    rw [hraws₁] at hmem
    rcases List.mem_append.mp hmem with hold | hnew
    · exact absurd (hof ▸ h.raws row hold) (Nat.not_lt.mpr hfile)
    · exact hnew
  rw [bind_eq, wp_bind]
  refine (normaliseIngestionFile_spec p.lib file.id up s₁).mono ?_ fun _ _ _ => trivial
  rintro normalised s₂ ⟨txns, _, hsources, hrejected, hintake₂⟩
  rw [Db.intake, Prod.mk.injEq, Prod.mk.injEq] at hintake₂
  obtain ⟨hraws₂, htxns₂, hexceptions₂⟩ := hintake₂
  rw [bind_eq, wp_bind]
  refine (classifyIngestionFile_spec p.classifier file.id now s₂ ?_).mono ?_ fun _ _ _ => trivial
  · intro e he
    rw [hexceptions₂, hexceptions₁] at he
    refine ⟨fun hkey => ?_, fun row hmem hof hkey => ?_⟩
    · exact absurd (h.keys e he file.id (.inl hkey)) (Nat.not_lt.mpr hfile)
    · have hnew := hmine row (hraws₂ ▸ hmem) hof
      exact absurd (h.keys e he row.id (.inr hkey)) (Nat.not_lt.mpr (hfresh row hnew).1)
  rintro classified s₃ ⟨es, hintake₃, hcovered⟩
  rw [bind_eq, wp_bind]
  refine (intake_wp (scanIngestionFile_leavesIntake _ _ _) s₃).mono ?_ fun _ _ _ => trivial
  intro scanned s₄ hintake₄
  rw [bind_eq, wp_bind]
  refine (intake_wp (raiseAlerts_leavesIntake _ _) s₄).mono ?_ fun _ _ _ => trivial
  intro surfaced s₅ hintake₅
  rw [bind_eq, wp_bind, wp_tables, bind_eq, wp_bind]
  refine (intake_wp (raiseAlerts_leavesIntake _ _) s₅).mono ?_ fun _ _ _ => trivial
  intro repeated s₆ hintake₆
  rw [bind_eq, wp_bind]
  refine (intake_wp (append_leavesIntake _ _) s₆).mono ?_ fun _ _ _ => trivial
  intro _ s₇ hintake₇
  rw [bind_eq, wp_bind]
  refine (intake_wp (append_leavesIntake _ _) s₇).mono ?_ fun _ _ _ => trivial
  intro _ s₈ hintake₈
  have hintake := (hintake₈.trans hintake₇).trans ((hintake₆.trans hintake₅).trans
    (hintake₄.trans hintake₃))
  rw [Db.intake, Prod.mk.injEq, Prod.mk.injEq, hraws₂, htxns₂, hexceptions₂, hraws₁, htxns₁,
    hexceptions₁] at hintake
  obtain ⟨hraws, htxns, hexceptions⟩ := hintake
  rw [hraws₂] at hcovered
  refine ⟨rows, file, raws, hrows, hresult, hstored,
    ⟨hfile, hids, fun raw hraw => (hfresh raw hraw).1, hraws, hofFile, hstatus,
      ⟨txns, htxns, ?_⟩, ?_, ⟨es, hexceptions, ?_⟩⟩⟩
  · have hold : s.view.rawTransactions.filter (fun row => row.ingestionFileId = file.id ∧
        row.parseStatus = .parsed) = [] := by
      refine List.filter_eq_nil_iff.mpr fun row hmem hof => ?_
      exact absurd ((of_decide_eq_true hof).1 ▸ h.raws row hmem) (Nat.not_lt.mpr hfile)
    rw [hsources]
    refine (((List.perm_insertionSort _ _).filter _).map _).trans ?_
    rw [hraws₁, List.filter_append, hold, List.nil_append, List.filter_filter]
    refine List.Perm.of_eq (congrArg _ (List.filter_congr fun raw hraw => ?_))
    simp [hofFile raw hraw, Bool.and_comm]
  · intro raw hraw hparsed
    refine hrejected raw (mem_parsedRaw.mpr ⟨?_, hofFile raw hraw, hparsed⟩)
    exact hraws₁ ▸ List.mem_append_right _ hraw
  · intro raw hraw
    refine hcovered raw (hraws₁ ▸ List.mem_append_right _ hraw) (hofFile raw hraw) ?_
    intro other hother hof hid
    exact Store.eq_of_key_eq hids (hmine other hother hof) hraw hid

/-! ## Every row of the file -/

section

variable {p : IngestionPipeline} {up : Upload} {d d' : Db} {n : Nat} {file : IngestionFile}
  {raws : List RawTransaction}

/-- The row was parsed and its values could be read. -/
def IngestionPipeline.normalises (p : IngestionPipeline) (up : Upload) (raw : RawTransaction) : Bool :=
  raw.parseStatus = .parsed ∧ raw.normalises p.lib up.config up.formatType up.source = true

/-- A row is the source of one transaction when it normalises, and of none otherwise. -/
theorem Intake.made (hi : Intake p up d n file raws d') (h : d.NamesBelow n)
    {raw : RawTransaction} (hraw : raw ∈ raws) :
    (d'.madeFrom raw.id).length = if p.normalises up raw = true then 1 else 0 := by
  obtain ⟨txns, htxns, hperm⟩ := hi.sources
  have hold : d.transactions.filter (·.rawTransactionId = raw.id) = [] := by
    refine List.filter_eq_nil_iff.mpr fun t ht hsource => ?_
    exact absurd (of_decide_eq_true hsource ▸ h.sources t ht) (Nat.not_lt.mpr (hi.new raw hraw))
  have hmem : raw.id ∈ ((raws.filter fun raw => raw.parseStatus = .parsed ∧
      raw.normalises p.lib up.config up.formatType up.source = true).map (·.id)) ↔
        p.normalises up raw = true := by
    constructor
    · intro hmem
      obtain ⟨other, hother, hid⟩ := List.mem_map.mp hmem
      obtain ⟨hin, hyes⟩ := List.mem_filter.mp hother
      obtain rfl : other = raw := Store.eq_of_key_eq hi.ids hin hraw hid
      exact hyes
    · exact fun hyes => List.mem_map_of_mem (List.mem_filter.mpr ⟨hraw, hyes⟩)
  have hcount : (d'.madeFrom raw.id).length = (txns.map (·.rawTransactionId)).count raw.id := by
    unfold Db.madeFrom
    rw [htxns, List.filter_append, hold, List.nil_append, List.count, List.countP_map,
      List.countP_eq_length_filter]
    rfl
  rw [hcount, hperm.count_eq,
    (hi.ids.sublist (List.filter_sublist.map _)).count]
  by_cases hyes : p.normalises up raw = true
  · rw [if_pos (hmem.mpr hyes), if_pos hyes]
  · rw [if_neg fun hin => hyes (hmem.mp hin), if_neg hyes]

/-- A row is covered exactly when it was quarantined. -/
theorem Intake.covers_iff (hi : Intake p up d n file raws d') (h : d.NamesBelow n)
    {raw : RawTransaction} (hraw : raw ∈ raws) :
    (∃ e ∈ d'.exceptions, e.covers raw) ↔ raw.parseStatus = .quarantined := by
  obtain ⟨es, hexceptions, hcovered⟩ := hi.covered
  rw [← hcovered raw hraw, hexceptions]
  refine ⟨fun ⟨e, he, hcovers⟩ => ?_, fun ⟨e, he, hcovers⟩ => ⟨e, List.mem_append_right _ he, hcovers⟩⟩
  rcases List.mem_append.mp he with hold | hnew
  · rcases hcovers.2 with haffected | ⟨hkey, _⟩
    · exact absurd (h.affected e hold _ haffected) (Nat.not_lt.mpr (hi.new raw hraw))
    · rw [hi.ofFile raw hraw] at hkey
      exact absurd (h.keys e hold _ (.inl hkey)) (Nat.not_lt.mpr hi.fresh)
  · exact ⟨e, hnew, hcovers⟩

/-- A row of the file is accounted for exactly when it is quarantined or normalises. -/
theorem Intake.accounted_iff (hi : Intake p up d n file raws d') (h : d.NamesBelow n)
    {raw : RawTransaction} (hraw : raw ∈ raws) :
    d'.Accounted raw ↔ raw.parseStatus = .quarantined ∨ p.normalises up raw = true := by
  unfold Db.Accounted
  rw [hi.made h hraw, hi.covers_iff h hraw]
  by_cases hyes : p.normalises up raw = true <;> simp [hyes]

end

/-- A valid row is read back from its stored form as it was. -/
theorem parsedRow_rawTransaction {file : IngestionFile} {row : ParsedRow} (id : Id)
    (h : row.isValid = true) : (rawTransaction file row id).parsedRow = row := by
  have herrors : row.errors = [] := List.isEmpty_iff.mp h
  unfold rawTransaction RawTransaction.parsedRow
  cases row
  cases herrors
  rfl

/-- **Nothing is silently dropped, except what the normaliser rejects.** After an upload every row of
its file is the source of one transaction or covered by a FORMAT_ERROR, and the source of one at
most, exactly when the normaliser rejects none of the valid rows of the file. -/
theorem rows_accounted_iff (p : IngestionPipeline) (up : Upload) (now : Instant) (s s' : Session)
    (out : UploadOutcome) (rows : List ParsedRow) (h : s.view.NamesBelow s.supply)
    (hrows : up.parsed = .ok rows) (hrun : (p.process up now).exec s = (.ok out, s')) :
    (∀ row ∈ s'.view.rawTransactions, row.ingestionFileId = out.result.ingestionFileId →
      s'.view.Accounted row) ↔
      ∀ row ∈ rows, (maskRow p.maskPans row).1.isValid = true → ∀ message,
        normalise p.lib (maskRow p.maskPans row).1 up.config up.formatType up.source ≠
          .error (.rejected message) := by
  have hspec := process_spec p up now s h
  unfold Store.Prog.wp at hspec
  rw [hrun] at hspec
  obtain ⟨rows', file, raws, hrows', hfile, hstored, hi⟩ := hspec
  obtain rfl : rows' = rows := by
    rw [hrows] at hrows'
    exact (Except.ok.inj hrows').symm
  have hmine : ∀ row ∈ s'.view.rawTransactions, row.ingestionFileId = file.id ↔ row ∈ raws := by
    intro row hrow
    refine ⟨fun hof => ?_, fun hraw => hi.ofFile row hraw⟩
    rw [hi.stored] at hrow
    rcases List.mem_append.mp hrow with hold | hnew
    · exact absurd (hof ▸ h.raws row hold) (Nat.not_lt.mpr hi.fresh)
    · exact hnew
  rw [hfile]
  constructor
  · intro hall row hrow hvalid message hrejected
    obtain ⟨raw, hraw, heq⟩ := forall₂_right hstored.flip _ (List.mem_map_of_mem hrow)
    have hin : raw ∈ s'.view.rawTransactions := hi.stored ▸ List.mem_append_right _ hraw
    have hparsed : raw.parseStatus = .parsed := by
      rw [heq]
      exact if_pos hvalid
    have hno : ¬ p.normalises up raw = true := by
      intro hyes
      have hnorm := (of_decide_eq_true hyes).2
      rw [heq, RawTransaction.normalises, parsedRow_rawTransaction _ hvalid, hrejected] at hnorm
      exact Bool.false_ne_true hnorm
    have haccounted := hall raw hin ((hmine raw hin).mpr hraw)
    rcases (hi.accounted_iff h hraw).mp haccounted with hstatus | hyes
    · rw [hparsed] at hstatus
      cases hstatus
    · exact hno hyes
  · intro hnone row hin hof
    have hraw := (hmine row hin).mp hof
    refine (hi.accounted_iff h hraw).mpr ?_
    rcases hi.status row hraw with hparsed | hstatus
    · refine .inr (decide_eq_true ⟨hparsed, ?_⟩)
      rcases hi.rejected row hraw hparsed with hyes | ⟨message, hrejected⟩
      · exact hyes
      · obtain ⟨source, hsource, heq⟩ := forall₂_right hstored row hraw
        obtain ⟨parsed, hmem, rfl⟩ := List.mem_map.mp hsource
        have hvalid : (maskRow p.maskPans parsed).1.isValid = true := by
          by_contra hinvalid
          rw [heq] at hparsed
          have hquarantined : (rawTransaction file (maskRow p.maskPans parsed).1 row.id).parseStatus =
              .quarantined := if_neg hinvalid
          rw [hquarantined] at hparsed
          cases hparsed
        rw [heq, parsedRow_rawTransaction _ hvalid] at hrejected
        exact absurd hrejected (hnone parsed hmem hvalid message)
    · exact .inl hstatus

/-! ## Two uploads of one day -/

/-- The library on the texts of the day: one date, one amount, and the zone UTC. -/
def dayLibrary : TextLibrary where
  strptime text format :=
    if text = "2026-03-01" ∧ format = "%Y-%m-%d" then some ⟨739676, 0⟩ else none
  zoneInfo name :=
    if name = "UTC" then some fun t => some ((t.date - 719163) * 86400000000 + t.time) else none
  decimal text := if text = "250.00" then .finite 250 else .invalid

def dayPipeline : IngestionPipeline where
  lib := dayLibrary
  maskPans text := (text, 0)
  classifier := { shippedService with
    banks := fun _ => none, calendars := fun name => { name, holidays := [] }, hasFx := false }
  anomalies := ⟨fun _ _ _ _ => []⟩
  ingestionAlerts _ _ := []
  uniquenessAlerts _ _ := []
  actor := "ops"

/-- A row of the day with the given direction. -/
def dayRow (lineNo : Int) (direction : String) (errors : List ParseError) : ParsedRow where
  lineNo := lineNo
  rawFields := []
  mapped := [("txn_date", "2026-03-01"), ("direction", direction), ("amount", "250.00"),
    ("reference", "REF-1")]
  errors := errors

def dayUpload (rows : List ParsedRow) : Upload where
  config := { bankCode := "HDFC", timezone := "UTC", currencyDefault := "INR", supportedFormats := [.csv],
              csv := some { dateFormat := "%Y-%m-%d" } }
  formatType := .csv
  source := .external
  contentSha256 := "0000"
  sizeBytes := 1
  parsed := .ok rows

def emptyStore : Session := { committed := {}, supply := 1 }

theorem emptyStore_names : emptyStore.view.NamesBelow emptyStore.supply :=
  ⟨fun _ h => absurd h List.not_mem_nil, fun _ h => absurd h List.not_mem_nil,
    fun _ h => absurd h List.not_mem_nil, fun _ h => absurd h List.not_mem_nil⟩

/-- A row that normalises and a row without an amount. -/
def goodRows : List ParsedRow :=
  [dayRow 1 " cr " [], dayRow 2 "DR" [⟨"INVALID_AMOUNT", some "amount", "not a number"⟩]]

theorem rows_accounted_goodRows : ∃ out s',
    (dayPipeline.process (dayUpload goodRows) 0).exec emptyStore = (.ok out, s') ∧
      s'.view.rawTransactions.length = 2 ∧
        ∀ row ∈ s'.view.rawTransactions, row.ingestionFileId = out.result.ingestionFileId →
          s'.view.Accounted row := by
  have hcheck : (match (dayPipeline.process (dayUpload goodRows) 0).exec emptyStore with
      | (.ok _, s') => s'.view.rawTransactions.length == 2
      | (.error _, _) => false) = true := by decide +kernel
  rcases hrun : (dayPipeline.process (dayUpload goodRows) 0).exec emptyStore with ⟨_ | out, s'⟩
  · rw [hrun] at hcheck
    cases hcheck
  · rw [hrun] at hcheck
    refine ⟨out, s', rfl, eq_of_beq hcheck, ?_⟩
    refine (rows_accounted_iff dayPipeline (dayUpload goodRows) 0 emptyStore s' out goodRows
      emptyStore_names rfl hrun).mpr fun row hrow hvalid message hrejected => ?_
    have hall : ∀ row ∈ goodRows, (maskRow dayPipeline.maskPans row).1.isValid = true →
        (normalise dayPipeline.lib (maskRow dayPipeline.maskPans row).1 (dayUpload goodRows).config
          .csv .external).isOk = true := by decide +kernel
    have hok := hall row hrow hvalid
    have hsame : normalise dayPipeline.lib (maskRow dayPipeline.maskPans row).1
        (dayUpload goodRows).config .csv .external = .error (.rejected message) := hrejected
    rw [hsame] at hok
    cases hok

/-- A valid row whose direction the normaliser does not know: no transaction, and no exception. -/
theorem row_dropped :
    ¬ ∀ (p : IngestionPipeline) (up : Upload) (now : Instant) (s s' : Session)
      (out : UploadOutcome), s.view.NamesBelow s.supply →
      (p.process up now).exec s = (.ok out, s') → ∀ row ∈ s'.view.rawTransactions,
        row.ingestionFileId = out.result.ingestionFileId → s'.view.Accounted row := by
  intro h
  have hcheck : (match (dayPipeline.process (dayUpload [dayRow 1 "XFER" []]) 0).exec emptyStore with
      | (.ok out, s') => s'.view.rawTransactions.any (fun row =>
          row.ingestionFileId == out.result.ingestionFileId &&
            (s'.view.madeFrom row.id).isEmpty) && s'.view.exceptions.isEmpty
      | (.error _, _) => false) = true := by decide +kernel
  rcases hrun : (dayPipeline.process (dayUpload [dayRow 1 "XFER" []]) 0).exec emptyStore with
    ⟨_ | out, s'⟩
  · rw [hrun] at hcheck
    cases hcheck
  · rw [hrun] at hcheck
    simp only [Bool.and_eq_true, List.any_eq_true, beq_iff_eq, List.isEmpty_iff] at hcheck
    obtain ⟨⟨row, hrow, hfile, hmade⟩, hexceptions⟩ := hcheck
    have haccounted := h _ _ _ _ _ _ emptyStore_names hrun row hrow hfile
    rcases haccounted.1 with hone | ⟨e, he, _⟩
    · rw [hmade] at hone
      cases hone
    · rw [hexceptions] at he
      exact absurd he List.not_mem_nil

end Recon
