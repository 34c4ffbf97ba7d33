import ReconEngine.Audit.Verifier
import ReconEngine.Exceptions.Escalation
import ReconEngine.Histories.OpenLeftovers
import ReconEngine.Histories.Soundness
import ReconEngine.Ingestion.Vault
import ReconEngine.Reporting.Models
import ReconEngine.Runs.Backlog
import ReconEngine.Tabular.Tally

/-!
# The audit compliance report

The report counts the transactions of a period by what has become of them, the exceptions of the
period, and what the checks of chains, stored files and statements found. Its verdict is PASS when
it has nothing to complain of.

**The law** (`auditCompliance_means`): after every history the counts of the transactions add up,
and the verdict is PASS exactly when every transaction of the period is matched, voided, in review
or named by an exception (`AccountedFor`), every overdue open exception created in the period has
its stamp (`Escalated`), and the checks have passed (`ChecksPassed`).

**What it does not establish.** The note under the report says of all exceptions what the report
asks of those created in the period: an older exception may be overdue without a stamp while the
verdict is PASS. The results of the file checks are the recorded ones; that they are right is the
law of `Ingestion.VaultHistory`.
-/

set_option autoImplicit false

namespace Recon

open Store (Committed)
open Store.Prog hiding pure bind
open Tabular

/-! ## What the report reads -/

structure StatementBalance where
  createdAt : Instant
  balanced : Bool
deriving DecidableEq, Repr

/-- What the report reads beside the tables of the engine: the result of the last verification of
each file, the balances of the statements, and which alerts are OPEN. -/
structure CheckRecords where
  integrityStatus : Id → Option IntegrityStatus
  balances : List StatementBalance
  alertOpen : Id → Bool

def FailureKind.text : FailureKind → String
  | .sequenceGap => "SEQUENCE_GAP"
  | .prevHashMismatch => "PREV_HASH_MISMATCH"
  | .hashMismatch => "HASH_MISMATCH"
  | .unsupportedVersion => "UNSUPPORTED_VERSION"
  | .headMismatch => "HEAD_MISMATCH"

/-- `verify_all_chains`. -/
def verifyAllChains (sha256 : Sha256) (d : Db) : List (String × VerificationResult) :=
  ((classesOf (·.chainId) d.audit).insertionSort (· ≤ ·)).map fun chainId =>
    (chainId, verifyChain sha256 d chainId none)

/-- The first and the last day of a period. -/
structure Period where
  dateFrom : Date
  dateTo : Date
deriving DecidableEq, Repr

def Period.has (p : Period) (day : Date) : Bool := p.dateFrom ≤ day && day ≤ p.dateTo

/-! ## The report -/

/-- The report generator: the digest of the chains, the present, the day that the session of the
database sees an instant on, and the notation of an instant. -/
structure ReportGenerator where
  sha256 : Sha256
  now : Instant
  dayOf : Instant → Date
  showInstant : Instant → String

namespace Db

variable (d : Db) (p : Period)

def inPeriod : List NormalisedTransaction := d.transactions.filter fun t => p.has t.txnDate

def matchedCount : Nat := ((d.inPeriod p).filter fun t => t.matchStatus = .matched).length

def voidedCount : Nat := ((d.inPeriod p).filter fun t => t.matchStatus = .voided).length

def heldCount : Nat :=
  ((d.inPeriod p).filter fun t => t.matchStatus = .unmatched ∧ d.isClaimed t.id = true).length

/-- `_COVERED_IDS_SQL`. -/
def uncoveredCount : Nat := (d.uncovered p.dateFrom p.dateTo).length

def openCriticalCount (checks : CheckRecords) : Nat :=
  (d.alerts.filter fun a => checks.alertOpen a.id ∧ a.severity = "CRITICAL").length

end Db

namespace ReportGenerator

variable (g : ReportGenerator) (d : Db) (checks : CheckRecords) (p : Period)

def exceptionsInPeriod : List ReconException :=
  d.exceptions.filter fun e => p.has (g.dayOf e.createdAt)

def resolvedCount : Nat :=
  ((g.exceptionsInPeriod d p).filter fun e =>
    e.status = .resolved ∨ e.status = .writtenOff).length

def openCount : Nat := ((g.exceptionsInPeriod d p).filter fun e => e.status.isOpen).length

/-- Open, past the deadline, and without the stamp of a breach. -/
def Unaddressed (e : ReconException) : Prop :=
  e.status.isOpen = true ∧ e.slaDeadline < g.now ∧ e.slaBreachedAt = none

instance (e : ReconException) : Decidable (g.Unaddressed e) :=
  inferInstanceAs (Decidable (_ ∧ _ ∧ _))

def unaddressedCount : Nat :=
  ((g.exceptionsInPeriod d p).filter fun e => g.Unaddressed e).length

def filesInPeriod : List IngestionFile := d.files.filter fun f => p.has (g.dayOf f.ingestedAt)

def fileCount (status : Option IntegrityStatus) : Nat :=
  ((g.filesInPeriod d p).filter fun f => checks.integrityStatus f.id = status).length

def tamperedCount : Nat :=
  g.fileCount d checks p (some .tampered) + g.fileCount d checks p (some .missing)

def unbalancedCount : Nat :=
  (checks.balances.filter fun b => p.has (g.dayOf b.createdAt) ∧ b.balanced = false).length

def chainsOk : Bool := (verifyAllChains g.sha256 d).all fun chain => chain.2.ok

/-- What the report complains of. -/
def failures : List String :=
  (if d.uncoveredCount p = 0 then [] else
    [toString (d.uncoveredCount p) ++ " unmatched transaction(s) have no exception"]) ++
  (if g.unaddressedCount d p = 0 then [] else
    [toString (g.unaddressedCount d p) ++
      " exception(s) are past their SLA and were never escalated"]) ++
  (if g.chainsOk d then [] else ["the audit trail failed hash verification"]) ++
  (if g.tamperedCount d checks p = 0 then [] else
    [toString (g.tamperedCount d checks p) ++ " stored file(s) failed re-verification"]) ++
  (if g.unbalancedCount checks p = 0 then [] else
    [toString (g.unbalancedCount checks p) ++ " statement(s) do not balance"])

def verdict : String := if g.failures d checks p = [] then "PASS" else "FAIL"

def chainRow (chain : String × VerificationResult) : List Cell :=
  [.str chain.1, .int chain.2.entriesChecked,
    .str (if chain.2.ok then "intact"
      else "BROKEN: " ++ ((chain.2.failureKind.map FailureKind.text).getD "None") ++ " " ++
        chain.2.detail)]

/-- The statuses in the order of their names, the missing one being called `None`. -/
def fileRows : List (List Cell) :=
  [some .missing, none, some .ok, some .tampered].filterMap fun status =>
    if g.fileCount d checks p status = 0 then none
    else some [.str ((status.map IntegrityStatus.text).getD "not yet verified"),
      .int (g.fileCount d checks p status)]

/-- `audit_compliance`. -/
def auditCompliance : Report where
  kind := "audit-compliance"
  title := "Audit Compliance Report, " ++ isoformat p.dateFrom ++ " to " ++ isoformat p.dateTo
  generatedAt := g.showInstant g.now
  parameters :=
    [("date_from", .str (isoformat p.dateFrom)), ("date_to", .str (isoformat p.dateTo))]
  summary :=
    [("transactions_in_period", .int (d.inPeriod p).length),
      ("matched", .int (d.matchedCount p)),
      ("voided_duplicates", .int (d.voidedCount p)),
      ("held_for_review", .int (d.heldCount p)),
      ("unmatched_without_an_exception", .int (d.uncoveredCount p)),
      ("exceptions_in_period", .int (g.exceptionsInPeriod d p).length),
      ("exceptions_resolved", .int (g.resolvedCount d p)),
      ("exceptions_open", .int (g.openCount d p)),
      ("exceptions_past_sla_not_escalated", .int (g.unaddressedCount d p)),
      ("audit_trail_intact", .bool (g.chainsOk d)),
      ("files_failing_reverification", .int (g.tamperedCount d checks p)),
      ("statements_not_balancing", .int (g.unbalancedCount checks p)),
      ("open_critical_alerts", .int (d.openCriticalCount checks))]
  tables :=
    [⟨"Audit chains", ["Chain", "Entries verified", "Status"],
        (verifyAllChains g.sha256 d).map chainRow⟩,
      ⟨"Stored files by integrity status", ["Status", "Files"], g.fileRows d checks p⟩,
      ⟨"Failures", ["Finding"], (g.failures d checks p).map fun f => [.str f]⟩]
  verdict := some (g.verdict d checks p)
  notes :=
    ["PASS means every transaction in the period is matched, in review, voided, or " ++
        "covered by an exception; no exception is past its SLA unescalated; every audit " ++
        "chain re-verifies; and no stored file or statement failed its check.",
      "Hash verification cannot detect deletion of the newest audit entries unless a " ++
        "chain head exported earlier is supplied (GET /api/v1/audit/anchors)."]

end ReportGenerator

/-! ## What has become of a transaction -/

inductive Standing where
  | matched
  | voided
  | held
  | covered
  | uncovered
  | claimed
deriving DecidableEq, Repr

namespace Db

variable (d : Db) (p : Period)

/-- An exception covers the transaction. -/
def Covers (t : Id) : Prop := ∃ e ∈ d.exceptions, t ∈ e.affectedRecords.covered

instance (t : Id) : Decidable (d.Covers t) := inferInstanceAs (Decidable (∃ _ ∈ _, _))

def standing (t : NormalisedTransaction) : Standing :=
  match t.matchStatus with
  | .matched => .matched
  | .voided => .voided
  | .claimed => .claimed
  | .unmatched =>
    if d.isClaimed t.id = true then .held else if d.Covers t.id then .covered else .uncovered

/-- The leftovers of the period that an exception covers. -/
def coveredCount : Nat := (ofClass d.standing .covered (d.inPeriod p)).length

theorem standing_matched {t : NormalisedTransaction} :
    d.standing t = .matched ↔ t.matchStatus = .matched := by
  unfold standing
  cases t.matchStatus <;> simp
  split_ifs <;> simp

theorem standing_voided {t : NormalisedTransaction} :
    d.standing t = .voided ↔ t.matchStatus = .voided := by
  unfold standing
  cases t.matchStatus <;> simp
  split_ifs <;> simp

theorem standing_claimed {t : NormalisedTransaction} :
    d.standing t = .claimed ↔ t.matchStatus = .claimed := by
  unfold standing
  cases t.matchStatus <;> simp
  split_ifs <;> simp

/-- A transaction is held when a match under review claims it. -/
theorem standing_held {t : NormalisedTransaction} :
    d.standing t = .held ↔ t.matchStatus = .unmatched ∧ d.isClaimed t.id = true := by
  unfold standing
  cases t.matchStatus <;> simp
  split_ifs <;> simp_all

theorem standing_uncovered {t : NormalisedTransaction} :
    d.standing t = .uncovered ↔
      t.matchStatus = .unmatched ∧ d.isClaimed t.id = false ∧ ¬ d.Covers t.id := by
  unfold standing
  cases t.matchStatus <;> simp
  split_ifs <;> simp_all

/-- What the report counts as uncovered is that class of the period. -/
theorem uncovered_eq :
    d.uncovered p.dateFrom p.dateTo = ofClass d.standing .uncovered (d.inPeriod p) := by
  unfold uncovered ofClass inPeriod
  rw [List.filter_filter]
  apply List.filter_congr
  intro t _
  have hcovers : t.id ∉ d.exceptions.flatMap (·.affectedRecords.covered) ↔ ¬ d.Covers t.id := by
    rw [List.mem_flatMap]
    rfl
  rw [Bool.eq_iff_iff]
  simp only [decide_eq_true_eq, Bool.and_eq_true, standing_uncovered, hcovers, Period.has]
  tauto

variable {d}

/-- Where nothing is CLAIMED, the counts of the report add up to the transactions of the period. -/
theorem counts_add_up (h : ∀ t ∈ d.transactions, t.matchStatus ≠ .claimed) :
    (d.inPeriod p).length = d.matchedCount p + d.voidedCount p + d.heldCount p +
      d.coveredCount p + d.uncoveredCount p := by
  have hclasses : ∀ t ∈ d.inPeriod p,
      d.standing t ∈ [Standing.matched, .voided, .held, .covered, .uncovered] := by
    intro t ht
    have hne : d.standing t ≠ .claimed := by
      rw [Ne, standing_claimed]
      exact h t (List.mem_filter.mp ht).1
    cases hstanding : d.standing t <;> simp_all
  have htally := length_classes d.standing (by decide) hclasses
  have hmatched : d.matchedCount p = (ofClass d.standing .matched (d.inPeriod p)).length := by
    simp only [matchedCount, ofClass, standing_matched]
  have hvoided : d.voidedCount p = (ofClass d.standing .voided (d.inPeriod p)).length := by
    simp only [voidedCount, ofClass, standing_voided]
  have hheld : d.heldCount p = (ofClass d.standing .held (d.inPeriod p)).length := by
    simp only [heldCount, ofClass, standing_held]
  have huncovered : d.uncoveredCount p =
      (ofClass d.standing .uncovered (d.inPeriod p)).length := by
    rw [uncoveredCount, uncovered_eq]
  rw [hmatched, hvoided, hheld, huncovered, coveredCount, ← htally]
  simp only [List.map_cons, List.map_nil, List.sum_cons, List.sum_nil]
  omega

end Db

/-! ## What PASS means -/

/-- The transaction is a side of a match that stands. -/
def Db.SettledSide (d : Db) (t : Id) : Prop := ∃ r ∈ d.results, r.Settled ∧ r.Side t

/-- The transaction is a side of a match under review. -/
def Db.InReview (d : Db) (t : Id) : Prop :=
  ∃ r ∈ d.results, r.status = .pendingReview ∧ r.Side t

/-- What the note under the report says of the transactions. -/
def Db.AccountedFor (d : Db) (p : Period) : Prop :=
  ∀ t ∈ d.transactions, p.has t.txnDate = true →
    (t.matchStatus = .matched ∧ d.SettledSide t.id) ∨ d.InReview t.id ∨
      t.matchStatus = .voided ∨ d.Covers t.id

namespace ReportGenerator

variable (g : ReportGenerator) (d : Db) (checks : CheckRecords) (p : Period)

/-- No exception of the period is past its deadline unescalated. -/
def Escalated : Prop :=
  ∀ e ∈ d.exceptions, p.has (g.dayOf e.createdAt) = true → e.status.isOpen = true →
    e.slaDeadline < g.now → e.slaBreachedAt ≠ none

/-- What the checks found. -/
structure ChecksPassed : Prop where
  chains : ∀ row ∈ d.audit, (verifyChain g.sha256 d row.chainId none).ok = true
  files : ∀ f ∈ d.files, p.has (g.dayOf f.ingestedAt) = true →
    checks.integrityStatus f.id ≠ some .tampered ∧ checks.integrityStatus f.id ≠ some .missing
  statements : ∀ b ∈ checks.balances, p.has (g.dayOf b.createdAt) = true → b.balanced = true

variable {g d checks p}

/-- No exception is unaddressed exactly when all of the period are escalated. -/
theorem unaddressed_none :
    g.unaddressedCount d p = 0 ↔ g.Escalated d p := by
  unfold unaddressedCount exceptionsInPeriod Escalated Unaddressed
  rw [List.length_eq_zero_iff, List.filter_eq_nil_iff]
  constructor
  · intro h e he hday hopen hpast hstamp
    exact h e (List.mem_filter.mpr ⟨he, hday⟩) (by simp [hopen, hpast, hstamp])
  · intro h e he hun
    obtain ⟨he, hday⟩ := List.mem_filter.mp he
    obtain ⟨hopen, hpast, hstamp⟩ := of_decide_eq_true hun
    exact h e he hday hopen hpast hstamp

/-- The chains are in order when each that has an entry verifies. -/
theorem chainsOk_iff :
    g.chainsOk d = true ↔
      ∀ row ∈ d.audit, (verifyChain g.sha256 d row.chainId none).ok = true := by
  unfold chainsOk verifyAllChains
  rw [List.all_map, List.all_eq_true]
  constructor
  · intro h row hrow
    refine h row.chainId ?_
    rw [List.mem_insertionSort, mem_classesOf]
    exact ⟨row, hrow, rfl⟩
  · intro h chainId hchain
    rw [List.mem_insertionSort, mem_classesOf] at hchain
    obtain ⟨row, hrow, rfl⟩ := hchain
    exact h row hrow

/-- The checks have passed when there is nothing that any of them complains of. -/
theorem checksPassed_iff :
    g.ChecksPassed d checks p ↔ g.chainsOk d = true ∧ g.tamperedCount d checks p = 0 ∧
      g.unbalancedCount checks p = 0 := by
  have hfiles : g.tamperedCount d checks p = 0 ↔
      ∀ f ∈ d.files, p.has (g.dayOf f.ingestedAt) = true →
        checks.integrityStatus f.id ≠ some .tampered ∧
          checks.integrityStatus f.id ≠ some .missing := by
    unfold tamperedCount fileCount filesInPeriod
    rw [Nat.add_eq_zero_iff, List.length_eq_zero_iff, List.length_eq_zero_iff,
      List.filter_eq_nil_iff, List.filter_eq_nil_iff]
    simp only [List.mem_filter, decide_eq_true_eq, and_imp]
    exact ⟨fun h f hf hday => ⟨h.1 f hf hday, h.2 f hf hday⟩,
      fun h => ⟨fun f hf hday => (h f hf hday).1, fun f hf hday => (h f hf hday).2⟩⟩
  have hbalances : g.unbalancedCount checks p = 0 ↔
      ∀ b ∈ checks.balances, p.has (g.dayOf b.createdAt) = true → b.balanced = true := by
    unfold unbalancedCount
    rw [List.length_eq_zero_iff, List.filter_eq_nil_iff]
    simp
  rw [chainsOk_iff, hfiles, hbalances]
  exact ⟨fun h => ⟨h.chains, h.files, h.statements⟩, fun h => ⟨h.1, h.2.1, h.2.2⟩⟩

/-- The verdict, by the three counts it is made from. -/
theorem verdict_pass_iff :
    (g.auditCompliance d checks p).verdict = some "PASS" ↔
      d.uncoveredCount p = 0 ∧ g.Escalated d p ∧ g.ChecksPassed d checks p := by
  have hfailures : g.failures d checks p = [] ↔ d.uncoveredCount p = 0 ∧
      g.unaddressedCount d p = 0 ∧ g.chainsOk d = true ∧ g.tamperedCount d checks p = 0 ∧
        g.unbalancedCount checks p = 0 := by
    unfold failures
    simp only [List.append_eq_nil_iff, ite_eq_left_iff, List.cons_ne_nil, imp_false, not_not,
      and_assoc]
  have hverdict : (g.auditCompliance d checks p).verdict = some "PASS" ↔
      g.failures d checks p = [] := by
    show some (g.verdict d checks p) = some "PASS" ↔ _
    unfold verdict
    by_cases h : g.failures d checks p = [] <;> simp [h]
  rw [hverdict, hfailures, checksPassed_iff, unaddressed_none]

end ReportGenerator

namespace Ledger

variable {n : Nat} {d : Db}

/-- What holds a claim and is not matched is under review. -/
theorem inReview_of_held (h : Ledger n d) {t : NormalisedTransaction} (ht : t ∈ d.transactions)
    (hstatus : t.matchStatus = .unmatched) (hclaimed : d.isClaimed t.id = true) :
    d.InReview t.id := by
  obtain ⟨c, hc, hactive, htransaction⟩ := Db.isClaimed_eq_true.mp hclaimed
  obtain ⟨r, hr, hresult, hrejected, hside⟩ := h.owned c hc hactive
  rw [htransaction] at hside
  refine ⟨r, hr, ?_, hside⟩
  rcases r.status_cases with hsettled | hpending | hrejected'
  · have hmatched := (h.matched t ht).mpr ⟨r, ⟨hr, c, hc, hactive, htransaction, hresult⟩, hsettled⟩
    rw [hstatus] at hmatched
    cases hmatched
  · exact hpending
  · exact absurd hrejected' hrejected

/-- A MATCHED transaction is a side of a match that stands. -/
theorem settledSide_of_matched (h : Ledger n d) {t : NormalisedTransaction}
    (ht : t ∈ d.transactions) (hstatus : t.matchStatus = .matched) : d.SettledSide t.id := by
  obtain ⟨r, ⟨hr, c, hc, hactive, htransaction, hresult⟩, hsettled⟩ := (h.matched t ht).mp hstatus
  obtain ⟨r', hr', hresult', -, hside⟩ := h.owned c hc hactive
  have hsame : r.id = r'.id := Option.some.inj (hresult.symm.trans hresult')
  obtain rfl : r = r' := List.inj_on_of_nodup_map h.resultIds hr hr' hsame
  exact ⟨r, hr, hsettled, htransaction ▸ hside⟩

/-- The query counts nothing exactly when every transaction of the period is accounted for. -/
theorem accountedFor_iff (h : Ledger n d) (p : Period) :
    d.uncoveredCount p = 0 ↔ d.AccountedFor p := by
  rw [Db.uncoveredCount, Db.uncovered_eq, List.length_eq_zero_iff, List.eq_nil_iff_forall_not_mem]
  constructor
  · intro hnone t ht hday
    have hmem : t ∈ d.inPeriod p := List.mem_filter.mpr ⟨ht, hday⟩
    cases hstatus : t.matchStatus with
    | matched => exact .inl ⟨rfl, h.settledSide_of_matched ht hstatus⟩
    | voided => exact .inr (.inr (.inl rfl))
    | claimed => exact absurd hstatus (h.notClaimed t ht)
    | unmatched =>
      by_cases hclaimed : d.isClaimed t.id = true
      · exact .inr (.inl (h.inReview_of_held ht hstatus hclaimed))
      · by_contra hnot
        have hcovers : ¬ d.Covers t.id := fun hcovers => hnot (.inr (.inr (.inr hcovers)))
        refine hnone t (mem_ofClass.mpr ⟨hmem, ?_⟩)
        rw [Db.standing_uncovered]
        exact ⟨hstatus, Bool.eq_false_iff.mpr hclaimed, hcovers⟩
  · intro hall t hmem
    obtain ⟨hmem, hstanding⟩ := mem_ofClass.mp hmem
    obtain ⟨ht, hday⟩ := List.mem_filter.mp hmem
    obtain ⟨hstatus, hfree, hcovers⟩ := (Db.standing_uncovered d).mp hstanding
    rcases hall t ht hday with ⟨hmatched, -⟩ | ⟨r, hr, hpending, hside⟩ | hvoided | hcovered
    · rw [hstatus] at hmatched
      cases hmatched
    · have hclaimed := ((h.parked r hr hpending).2 t.id hside).isClaimed
      rw [hfree] at hclaimed
      cases hclaimed
    · rw [hstatus] at hvoided
      cases hvoided
    · exact hcovers hcovered

end Ledger

/-- **The law of the report.** After every history the counts of the transactions add up, and PASS
means that the period is accounted for, its exceptions are escalated and its checks have passed. -/
theorem auditCompliance_means {c : Committed schema} (h : Untouched c) (ops : List Operation)
    (g : ReportGenerator) (checks : CheckRecords) (p : Period) :
    let d := (operate c ops).db
    (d.inPeriod p).length = d.matchedCount p + d.voidedCount p + d.heldCount p +
        d.coveredCount p + d.uncoveredCount p ∧
      ((g.auditCompliance d checks p).verdict = some "PASS" ↔
        d.AccountedFor p ∧ g.Escalated d p ∧ g.ChecksPassed d checks p) := by
  intro d
  have hledger : Ledger (operate c ops).supply d := (operate_sound h ops).ledger
  constructor
  · exact Db.counts_add_up p hledger.notClaimed
  · rw [ReportGenerator.verdict_pass_iff, hledger.accountedFor_iff]

/-- The report of an auditor who asks soon after the first run. -/
def dayReport : ReportGenerator where
  sha256 := constantDigests
  now := 5
  dayOf _ := 739000
  showInstant _ := "2024-04-30T00:00:05+00:00"

/-- The pair that agrees is matched, what is left is classified and escalated, and a person undoes
the match. -/
def workedDay : List Operation :=
  [.level stagedRun "AXIS" .setBased,
   .classify plainClassifier "AXIS" 101 2 none none {},
   .escalate ⟨constantDigests⟩ "AXIS" (some 101) 3,
   .unmatch ⟨constantDigests⟩ 5 "asha" "wrong pair" 4]

/-- Two statements of the day balanced. -/
def dayChecks : CheckRecords := ⟨fun _ => some .ok, [⟨2, true⟩, ⟨3, true⟩], fun _ => false⟩

theorem auditCompliance_means_axis :
    let d := (operate settledDay workedDay).db
    let p : Period := ⟨739000, 739000⟩
    (d.inPeriod p).length = d.matchedCount p + d.voidedCount p + d.heldCount p +
        d.coveredCount p + d.uncoveredCount p ∧
      ((dayReport.auditCompliance d dayChecks p).verdict = some "PASS" ↔
        d.AccountedFor p ∧ dayReport.Escalated d p ∧ dayReport.ChecksPassed d dayChecks p) :=
  auditCompliance_means settledDay_unbooked.toUntouched workedDay dayReport dayChecks
    ⟨739000, 739000⟩

/-- The pair that was undone is in nobody's hands: the report says FAIL. -/
example : (operate settledDay workedDay).db.matchedCount ⟨739000, 739000⟩ = 2 ∧
    (operate settledDay workedDay).db.uncoveredCount ⟨739000, 739000⟩ = 2 ∧
    (dayReport.auditCompliance (operate settledDay workedDay).db dayChecks
      ⟨739000, 739000⟩).verdict = some "FAIL" := by
  decide +kernel

end Recon
