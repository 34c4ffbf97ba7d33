import ReconEngine.Reporting.Models
import ReconEngine.Tabular.Writer

/-!
# Reports and exceptions as CSV

A report is written as its summary first and then its tables, with a blank row before each; the
list of exceptions is written as one table. A cell that begins like a formula gets an apostrophe in
front, for a spreadsheet would run it.

**The law of the file** (`renderCsv_reads`): a CSV reader gives back every row, no cell of which
begins like a formula, and the blank rows divide them into the summary and the tables. The export of
exceptions is read back in the same way (`exportExceptions_reads`), and what was exported can be
told from it but for the apostrophes (`unsafe_safe`).

**What it does not establish.** That the reader is given the whole text: a reader with a limit on
the size of a cell refuses longer ones, and a carriage return within a cell is read back from a
writer that quotes it (`Tabular.Writer`). The apostrophe in front of a formula stays in the file.
-/

set_option autoImplicit false

namespace Recon

/-! ## Cells -/

def formulaPrefixes : List Char := ['=', '+', '-', '@', '\t', '\r']

/-- A text that a spreadsheet would run. -/
def Formula (text : String) : Prop := ∃ c ∈ formulaPrefixes, text.toList.head? = some c

instance (text : String) : Decidable (Formula text) :=
  List.decidableBEx (fun c => text.toList.head? = some c) formulaPrefixes

/-- A text that a spreadsheet shows as it is. -/
def safe (text : String) : String := if Formula text then "'" ++ text else text

/-- `_safe_cell`. -/
def safeCell (value : Cell) : String := safe value.text

/-- The text without an apostrophe that was put before a formula. -/
def unsafeText (text : String) : String :=
  match text.toList with
  | '\'' :: rest => if Formula (String.ofList rest) then String.ofList rest else text
  | _ => text

/-- What cannot have come from a formula. -/
def Unprefixed (text : String) : Prop := ∀ rest, text = "'" ++ rest → ¬ Formula rest

/-- A cell that was made safe does not begin like a formula. -/
theorem not_formula_safe (text : String) : ¬ Formula (safe text) := by
  unfold safe
  by_cases h : Formula text
  · rw [if_pos h]
    intro hformula
    obtain ⟨c, hc, hhead⟩ := hformula
    have hquote : c = '\'' := by simpa using hhead.symm
    rw [hquote] at hc
    exact absurd hc (by decide)
  · rw [if_neg h]
    exact h

/-- A text can be told from the cell it was written to, unless it looks like one that was
made safe. -/
theorem unsafe_safe {text : String} (h : Unprefixed text) : unsafeText (safe text) = text := by
  unfold safe
  by_cases hformula : Formula text
  · simp [hformula, unsafeText]
  · rw [if_neg hformula]
    unfold unsafeText
    split
    · rename_i rest hrest
      have htext : text = "'" ++ String.ofList rest := by
        apply String.toList_inj.mp
        simp [hrest]
      rw [if_neg (h _ htext)]
    · rfl

/-! ## The rows of a report -/

namespace Report

variable (report : Report)

/-- The rows up to the first table. -/
def headRows : List (List String) :=
  [["# " ++ report.title]] ++
    (match report.shownVerdict with
      | some verdict => [["result", verdict]]
      | none => []) ++
    report.summary.map fun entry => [safe entry.1, safeCell entry.2]

end Report

/-- The rows of a table, without the blank one before it. -/
def ReportTable.csvRows (table : ReportTable) : List (List String) :=
  ["# " ++ table.name] :: table.columns.map safe :: table.rows.map (·.map safeCell)

namespace Report

variable (report : Report)

def csvRows : List (List String) :=
  report.headRows ++ report.tables.flatMap fun table => [] :: table.csvRows

/-- `render_csv`, with the writer of a version of the standard library. -/
def renderCsv (quotesReturns : Bool) : String :=
  ({ quotesReturns } : Csv.Writer).write report.csvRows

/-- The reader takes every cell that is written for the report. -/
def Exportable (quotesReturns : Bool) : Prop :=
  ∀ row ∈ report.csvRows, ∀ cell ∈ row, ({ quotesReturns } : Csv.Writer).Fits cell

/-- The verdict is one of two words, and every table has a column and cells in each of its rows. -/
def WellFormed : Prop :=
  (∀ verdict ∈ report.verdict, verdict = "PASS" ∨ verdict = "FAIL") ∧
    ∀ table ∈ report.tables, table.columns ≠ [] ∧ [] ∉ table.rows

end Report

/-- The commas of the default dialect. -/
theorem comma_sane (quotesReturns : Bool) : ({ quotesReturns } : Csv.Writer).Sane := by
  have hcomma : ',' ≠ '"' ∧ ',' ≠ '\n' ∧ ',' ≠ '\r' := by decide
  exact hcomma

/-- A title begins with a number sign. -/
theorem not_formula_title (title : String) : ¬ Formula ("# " ++ title) := by
  intro h
  obtain ⟨c, hc, hhead⟩ := h
  have hhash : c = '#' := by simpa using hhead.symm
  rw [hhash] at hc
  exact absurd hc (by decide)

/-- No cell of a row begins like a formula. -/
def Harmless (row : List String) : Prop := ∀ cell ∈ row, ¬ Formula cell

theorem harmless_safe {α : Type} (items : List α) (text : α → String) :
    Harmless (items.map fun item => safe (text item)) := by
  intro cell hcell
  obtain ⟨item, -, rfl⟩ := List.mem_map.mp hcell
  exact not_formula_safe (text item)

theorem tableRows_harmless (table : ReportTable) : ∀ row ∈ table.csvRows, Harmless row := by
  intro row hrow
  unfold ReportTable.csvRows at hrow
  rcases List.mem_cons.mp hrow with rfl | hrow
  · intro cell hcell
    rw [List.mem_singleton.mp hcell]
    exact not_formula_title table.name
  · rcases List.mem_cons.mp hrow with rfl | hrow
    · exact harmless_safe table.columns id
    · obtain ⟨cells, -, rfl⟩ := List.mem_map.mp hrow
      exact harmless_safe cells Cell.text

/-- The summary of a report is harmless where its labels are. -/
theorem headRows_harmless {report : Report} (h : report.WellFormed) :
    ∀ row ∈ report.headRows, Harmless row := by
  intro row hrow
  unfold Report.headRows at hrow
  rcases List.mem_append.mp hrow with hrow | hrow
  · rcases List.mem_append.mp hrow with hrow | hrow
    · intro cell hcell
      rw [List.mem_singleton.mp hrow] at hcell
      rw [List.mem_singleton.mp hcell]
      exact not_formula_title report.title
    · cases hshown : report.shownVerdict with
      | none => simp [hshown] at hrow
      | some verdict =>
        rw [hshown] at hrow
        have hverdict : verdict = "PASS" ∨ verdict = "FAIL" :=
          h.1 verdict (Option.filter_eq_some_iff.mp hshown).1
        intro cell hcell
        rw [List.mem_singleton.mp hrow] at hcell
        rcases List.mem_pair.mp hcell with rfl | rfl
        · decide
        · rcases hverdict with rfl | rfl <;> decide
  · obtain ⟨entry, -, rfl⟩ := List.mem_map.mp hrow
    intro cell hcell
    rcases List.mem_pair.mp hcell with rfl | rfl
    · exact not_formula_safe _
    · exact not_formula_safe _

/-- The blank rows divide the file into the summary and the tables. -/
theorem csvRows_sections {report : Report} (h : report.WellFormed) :
    report.csvRows.splitOn [] = report.headRows :: report.tables.map ReportTable.csvRows := by
  have hjoin : ∀ (tables : List ReportTable) (head : List (List String)),
      head ++ tables.flatMap (fun table => [] :: table.csvRows) =
        [[]].intercalate (head :: tables.map ReportTable.csvRows) := by
    intro tables
    induction tables with
    | nil => intro head; simp
    | cons table rest ih =>
      intro head
      rw [List.flatMap_cons, List.map_cons, List.intercalate_cons_cons, ← ih table.csvRows]
      simp
  have hhead : [] ∉ report.headRows := by
    unfold Report.headRows
    cases report.shownVerdict with
    | none => simp
    | some verdict => simp
  have htables : ∀ rows ∈ report.headRows :: report.tables.map ReportTable.csvRows,
      [] ∉ rows := by
    intro rows hrows
    rcases List.mem_cons.mp hrows with rfl | hrows
    · exact hhead
    · obtain ⟨table, htable, rfl⟩ := List.mem_map.mp hrows
      obtain ⟨hcolumns, hcells⟩ := h.2 table htable
      unfold ReportTable.csvRows
      intro hempty
      rcases List.mem_cons.mp hempty with hempty | hempty
      · exact absurd hempty (by simp)
      · rcases List.mem_cons.mp hempty with hempty | hempty
        · exact hcolumns (List.map_eq_nil_iff.mp hempty.symm)
        · obtain ⟨cells, hmem, hnil⟩ := List.mem_map.mp hempty
          rw [List.map_eq_nil_iff.mp hnil] at hmem
          exact hcells hmem
  unfold Report.csvRows
  rw [hjoin]
  exact List.splitOn_intercalate [] htables (List.cons_ne_nil _ _)

/-- **The law of the file.** -/
theorem renderCsv_reads {report : Report} {quotesReturns : Bool} (h : report.WellFormed)
    (hexport : report.Exportable quotesReturns) :
    Csv.readRows ',' (report.renderCsv quotesReturns) = (report.csvRows, none) ∧
      (∀ row ∈ report.csvRows, Harmless row) ∧
      report.csvRows.splitOn [] = report.headRows :: report.tables.map ReportTable.csvRows := by
  refine ⟨?_, ?_, csvRows_sections h⟩
  · exact Csv.readRows_written (w := { quotesReturns }) (comma_sane quotesReturns) hexport
  · intro row hrow
    unfold Report.csvRows at hrow
    rcases List.mem_append.mp hrow with hrow | hrow
    · exact headRows_harmless h row hrow
    · obtain ⟨table, -, hrow⟩ := List.mem_flatMap.mp hrow
      rcases List.mem_cons.mp hrow with rfl | hrow
      · intro cell hcell
        exact absurd hcell List.not_mem_nil
      · exact tableRows_harmless table row hrow

/-- A report whose one row names a remitter that looks like a formula. -/
def remitterReport : Report where
  kind := "daily"
  title := "Daily reconciliation, 2026-09-18"
  generatedAt := "2026-09-18T18:30:00+00:00"
  parameters := []
  summary := [("matched", .int 1), ("remitter", .str "=1+1")]
  tables := [{ name := "By bank", columns := ["bank", "rate"], rows := [[.str "AXIS", .none]] }]
  verdict := some "PASS"

theorem renderCsv_reads_remitter :
    Csv.readRows ',' (remitterReport.renderCsv false) =
      ([["# Daily reconciliation, 2026-09-18"], ["result", "PASS"], ["matched", "1"],
        ["remitter", "'=1+1"], [], ["# By bank"], ["bank", "rate"], ["AXIS", ""]], none) := by
  have hrows : remitterReport.csvRows =
      [["# Daily reconciliation, 2026-09-18"], ["result", "PASS"], ["matched", "1"],
        ["remitter", "'=1+1"], [], ["# By bank"], ["bank", "rate"], ["AXIS", ""]] := by
    decide +kernel
  have hwell : remitterReport.WellFormed := by
    constructor
    · intro verdict hverdict
      exact .inl (Option.some.inj hverdict).symm
    · decide
  have hexport : remitterReport.Exportable false := by
    unfold Report.Exportable Csv.Writer.Fits
    rw [hrows]
    decide +kernel
  rw [← hrows]
  exact (renderCsv_reads hwell hexport).1

/-! ## The export of exceptions -/

/-- The columns of an exception that are exported, with its times in the notation of `isoformat`
and its amount as `str` gives it. -/
structure ExportedException where
  id : String
  category : String
  severity : String
  status : String
  assignedTier : Int
  assignedTo : Option String
  bankCode : String
  runId : Option String
  financialImpactAmount : Option String
  financialImpactCurrency : Option String
  financialImpactInrMinor : Option Int
  createdAt : String
  slaDeadline : String
  slaBreachedAt : Option String
  resolvedAt : Option String
  resolvedBy : Option String
  rationale : String
deriving DecidableEq, Repr

namespace ExportedException

def header : List String :=
  ["id", "category", "severity", "status", "tier", "assigned_to", "bank_code", "run_id", "amount",
    "currency", "amount_inr_minor", "created_at", "sla_deadline", "sla_breached_at", "resolved_at",
    "resolved_by", "rationale"]

/-- The texts of the values; nothing for a value that is missing. -/
def texts (e : ExportedException) : List String :=
  [e.id, e.category, e.severity, e.status, toString e.assignedTier, e.assignedTo.getD "",
    e.bankCode, e.runId.getD "", e.financialImpactAmount.getD "",
    e.financialImpactCurrency.getD "", (e.financialImpactInrMinor.map toString).getD "",
    e.createdAt, e.slaDeadline, e.slaBreachedAt.getD "", e.resolvedAt.getD "",
    e.resolvedBy.getD "", e.rationale]

end ExportedException

/-- The rows of `export_exceptions`. -/
def exceptionRows (rows : List ExportedException) : List (List String) :=
  ExportedException.header :: rows.map fun e => e.texts.map safe

/-- `export_exceptions`, for the rows that its query gave. -/
def exportExceptions (quotesReturns : Bool) (rows : List ExportedException) : String :=
  ({ quotesReturns } : Csv.Writer).write (exceptionRows rows)

/-- The export is read back row for row, without a formula, and every text that does not look like
one that was made safe is recovered. -/
theorem exportExceptions_reads {quotesReturns : Bool} {rows : List ExportedException}
    (hfits : ∀ e ∈ rows, ∀ text ∈ e.texts,
      ({ quotesReturns } : Csv.Writer).Fits (safe text)) :
    ∃ read, Csv.readRows ',' (exportExceptions quotesReturns rows) =
        (ExportedException.header :: read, none) ∧
      (∀ row ∈ read, Harmless row) ∧
      ((∀ e ∈ rows, ∀ text ∈ e.texts, Unprefixed text) →
        read.map (·.map unsafeText) = rows.map ExportedException.texts) := by
  have hheader : ∀ cell ∈ ExportedException.header,
      cell.toList.length ≤ Csv.fieldLimit ∧ '\r' ∉ cell.toList := by decide
  have hall : ∀ row ∈ exceptionRows rows, ∀ cell ∈ row,
      ({ quotesReturns } : Csv.Writer).Fits cell := by
    intro row hrow cell hcell
    rcases List.mem_cons.mp hrow with rfl | hrow
    · obtain ⟨hlimit, hreturn⟩ := hheader cell hcell
      exact ⟨hlimit, fun _ => hreturn⟩
    · obtain ⟨e, he, rfl⟩ := List.mem_map.mp hrow
      obtain ⟨text, htext, rfl⟩ := List.mem_map.mp hcell
      exact hfits e he text htext
  refine ⟨rows.map fun e => e.texts.map safe, ?_, ?_, ?_⟩
  · exact Csv.readRows_written (w := { quotesReturns }) (comma_sane quotesReturns) hall
  · intro row hrow
    obtain ⟨e, -, rfl⟩ := List.mem_map.mp hrow
    exact harmless_safe e.texts id
  · intro hplain
    rw [List.map_map]
    apply List.map_congr_left
    intro e he
    show (e.texts.map safe).map unsafeText = e.texts
    rw [List.map_map]
    conv_rhs => rw [← List.map_id e.texts]
    apply List.map_congr_left
    intro text htext
    exact unsafe_safe (hplain e he text htext)

/-- An exception that was resolved by hand, with a rationale that looks like a formula. -/
def resolvedException : ExportedException where
  id := "e-1"
  category := "AMOUNT_MISMATCH"
  severity := "LOW"
  status := "RESOLVED"
  assignedTier := 1
  assignedTo := some "ops"
  bankCode := "AXIS"
  runId := none
  financialImpactAmount := some "-12.50"
  financialImpactCurrency := some "INR"
  financialImpactInrMinor := some (-1250)
  createdAt := "2026-09-18T10:00:00+00:00"
  slaDeadline := "2026-09-19T10:00:00+00:00"
  slaBreachedAt := none
  resolvedAt := some "2026-09-18T12:00:00+00:00"
  resolvedBy := some "ops"
  rationale := "@bank, fee \"waived\""

theorem exportExceptions_reads_resolved :
    ∃ read, Csv.readRows ',' (exportExceptions true [resolvedException]) =
        (ExportedException.header :: read, none) ∧
      (∀ row ∈ read, Harmless row) ∧
      ((∀ e ∈ [resolvedException], ∀ text ∈ e.texts, Unprefixed text) →
        read.map (·.map unsafeText) = [resolvedException].map ExportedException.texts) := by
  apply @exportExceptions_reads true [resolvedException]
  unfold Csv.Writer.Fits
  decide +kernel

end Recon
