import ReconEngine.Ingestion.Csv
import ReconEngine.Ingestion.DateNotation

/-!
# Trying a configuration out

Before a configuration is deployed, the head of one of the bank's files can be read with it: the
header is checked and the first rows are parsed, as ingestion would, and nothing is stored. A check
passes when there are rows and all those that were tried are valid.

**The law** (`validateCandidate_foretells`): where the sample is the head of a file, what the check
says of it is so for the whole file. If it passes, ingestion does not block or refuse the file, and
the first rows of the file are those that were tried; if ingestion finds nothing wrong with the
file, the check passes. A head is read as it is read within the file, because the reader is at the
start of a record where the head ends (`readRows_append`).

**What it does not establish.** Rows that were not tried may be invalid, and the reader may fail in
a part of the file that was no part of the sample. How a configuration is read from its text is not
said here: a candidate is one that could be read, or the message of the failure.
-/

set_option autoImplicit false

namespace Recon.Csv

/-! ## The check -/

def blocksIngestion (change : FormatChange) : Bool := change.missing ≠ []

def hasDrift (change : FormatChange) : Bool :=
  change.missing ≠ [] || change.unexpected ≠ [] || change.reordered

/-- `describe`. -/
def describe (change : FormatChange) : String :=
  let parts :=
    (if change.missing ≠ [] then ["missing columns: " ++ ", ".intercalate change.missing] else []) ++
    (if change.unexpected ≠ [] then ["new columns: " ++ ", ".intercalate change.unexpected] else []) ++
    if change.reordered = true ∧ change.missing = [] ∧ change.unexpected = [] then
      ["columns reordered"] else []
  if parts = [] then "no change" else "; ".intercalate parts

structure SampleReport where
  header : List String
  change : FormatChange
  rowsChecked : Nat
  rowsValid : Nat
  errors : List String
  preview : List (List (String × String))
deriving DecidableEq, Repr

def defaultSampleRows : Nat := 25

def previewRows : Nat := 5

def maxReportedErrors : Nat := 50

/-- The line of an error of a row. -/
def errorLine (row : ParsedRow) (error : ParseError) : String :=
  strip ("line " ++ toString row.lineNo ++ ": " ++ error.code ++ " " ++ error.field.getD "" ++ " " ++
    error.detail)

section

variable (lib : TextLibrary) (config : Config)

/-- `validate_sample`. The rows are drawn from the parser one by one, so that an error of the reader
behind the last row that is tried is not met. -/
def validateSample (text : String) (maxRows : Nat) : Except ReconError SampleReport :=
  match readHeader config text with
  | .error error => .error error
  | .ok header =>
    let change := compareHeader config header
    if blocksIngestion change then .ok ⟨header, change, 0, 0, [describe change], []⟩
    else match parse lib config text with
      | .error (.refused message) => .ok ⟨header, change, 0, 0, [message], []⟩
      | .error (.raised error) => .error error
      | .ok (rows, error) =>
        let parsed := rows.take (max 1 maxRows)
        match if rows.length < max 1 maxRows then error else none with
        | some message => .error (.environment message)
        | none => .ok {
            header := header
            change := change
            rowsChecked := parsed.length
            rowsValid := (parsed.filter (·.isValid)).length
            errors := (parsed.flatMap fun row => row.errors.map (errorLine row)).take
              maxReportedErrors
            preview := (parsed.take previewRows).map (·.mapped) }

/-- What `validate_candidate` asks of a report. -/
def SampleReport.passes (report : SampleReport) : Bool :=
  !blocksIngestion report.change && decide (0 < report.rowsChecked) &&
    report.rowsValid = report.rowsChecked

/-- `_parse` of a CSV file: the rows, and what has changed if it is harmless. -/
def ingest (bankCode text : String) : Parsing (List ParsedRow × Option FormatChange) :=
  match readHeader config text with
  | .error error => .error (.raised error)
  | .ok header =>
    let change := compareHeader config header
    if blocksIngestion change then .error (.refused
      (bankCode ++ " file format changed: " ++ describe change))
    else match parse lib config text with
      | .error failure => .error failure
      | .ok (_, some message) => .error (.raised (.environment message))
      | .ok (rows, none) => .ok (rows, if hasDrift change then some change else none)

end

/-! ## The whole configuration -/

/-- A configuration that could be read; it may have no CSV section. -/
structure Candidate where
  bankCode : String
  configVersion : String
  csv : Option Config

structure ValidationReport where
  ok : Bool
  configErrors : List String := []
  bankCode : Option String := none
  configVersion : Option String := none
  sample : Option SampleReport := none
  warnings : List String := []
deriving DecidableEq, Repr

/-- `validate_candidate`, where the configuration has been read or refused. -/
def validateCandidate (lib : TextLibrary) (candidate : Except String Candidate)
    (sampleText : Option String) : Except ReconError ValidationReport :=
  match candidate with
  | .error message => .ok { ok := false, configErrors := [message] }
  | .ok candidate =>
    let report : ValidationReport :=
      { ok := true, bankCode := some candidate.bankCode, configVersion := some candidate.configVersion }
    match sampleText, candidate.csv with
    | none, _ => .ok { report with
        warnings := ["no sample file was given; only the configuration itself was checked"] }
    | some _, none => .ok { report with
        warnings := ["this configuration has no CSV section, so the sample was not checked"] }
    | some text, some config =>
      (validateSample lib config text defaultSampleRows).map fun sample => { report with
        ok := sample.passes
        sample := some sample
        warnings :=
          if sample.change.unexpected ≠ [] then
            ["the sample has columns the mapping does not use: " ++
              ", ".intercalate sample.change.unexpected]
          else [] }

/-! ## The head of a file -/

/-- The reader behind some lines, unless it has failed. -/
def behindLines (delimiter : Char) : Reader → List (List Char) → Option Reader
  | r, [] => some r
  | r, line :: lines =>
    match r.processLine delimiter line with
    | .error _ => none
    | .ok next => behindLines delimiter (if next.state = .startRecord then {} else next) lines

/-- The text ends with a line, and the line ends a record: no quotes are open. -/
def EndsRecord (delimiter : Char) (text : String) : Prop :=
  text.toList.getLast? = some '\n' ∧
    behindLines delimiter {} (fileLinesFrom [] text.toList) = some {}

instance (delimiter : Char) (text : String) : Decidable (EndsRecord delimiter text) :=
  inferInstanceAs (Decidable (_ ∧ _))

/-- A character that does not begin a pair of a line's end. -/
theorem fileLinesFrom_cons {c : Char} {tail line : List Char}
    (h : ¬(c = '\r' ∧ tail.head? = some '\n')) :
    fileLinesFrom line (c :: tail) =
      if c = '\n' ∨ c = '\r' then (line ++ [c]) :: fileLinesFrom [] tail
      else fileLinesFrom (line ++ [c]) tail := by
  rw [fileLinesFrom]
  intro more hc htail
  exact h ⟨hc, by rw [htail]; rfl⟩

/-- A line feed ends a line wherever it stands. -/
theorem fileLinesFrom_append (rest : List Char) :
    ∀ (text line : List Char), text.getLast? = some '\n' →
      fileLinesFrom line (text ++ rest) = fileLinesFrom line text ++ fileLinesFrom [] rest := by
  intro text
  induction h : text.length using Nat.strong_induction_on generalizing text with
  | _ n ih =>
    subst h
    intro line hlast
    cases text with
    | nil => cases hlast
    | cons c tail =>
      cases tail with
      | nil =>
        obtain rfl : c = '\n' := by simpa using hlast
        simp [fileLinesFrom]
      | cons d more =>
        have hmore : (d :: more).getLast? = some '\n' := by simpa using hlast
        by_cases hpair : c = '\r' ∧ d = '\n'
        · obtain ⟨rfl, rfl⟩ := hpair
          cases hmoreEmpty : more with
          | nil => simp [fileLinesFrom]
          | cons e others =>
            have hlater : more.getLast? = some '\n' := by
              rw [hmoreEmpty] at hmore ⊢
              simpa using hmore
            have hshort : more.length < ('\r' :: '\n' :: more).length :=
              (Nat.lt_succ_self _).trans (Nat.lt_succ_self _)
            rw [← hmoreEmpty, List.cons_append, List.cons_append, fileLinesFrom, fileLinesFrom,
              ih more.length hshort more rfl [] hlater]
            rfl
        · have hnot : ∀ xs : List Char, ¬(c = '\r' ∧ (d :: xs).head? = some '\n') := by
            intro xs h
            exact hpair ⟨h.1, Option.some.inj h.2⟩
          have hshort : (d :: more).length < (c :: d :: more).length := by simp
          rw [List.cons_append, List.cons_append, fileLinesFrom_cons (hnot _),
            fileLinesFrom_cons (hnot _), ← List.cons_append]
          split
          · rw [ih _ hshort (d :: more) rfl [] hmore]
            rfl
          · exact ih _ hshort (d :: more) rfl (line ++ [c]) hmore

/-- Where the reader is at the start of a record behind some lines, the rows of these lines are what
they are whatever follows. -/
theorem readRowsFrom_lines {delimiter : Char} :
    ∀ {lines : List (List Char)} {r : Reader}, behindLines delimiter r lines = some {} →
      (lines = [] → r = {}) → ∃ rows, readRowsFrom delimiter r lines = (rows, none) ∧
        ∀ more, readRowsFrom delimiter r (lines ++ more) =
          (rows ++ (readRowsFrom delimiter {} more).1, (readRowsFrom delimiter {} more).2) := by
  intro lines
  induction lines with
  | nil =>
    intro r _ hstart
    obtain rfl := hstart rfl
    exact ⟨[], rfl, fun more => rfl⟩
  | cons line lines ih =>
    intro r hbehind _
    unfold behindLines at hbehind
    cases hline : r.processLine delimiter line with
    | error message =>
      rw [hline] at hbehind
      cases hbehind
    | ok next =>
      rw [hline] at hbehind
      dsimp only at hbehind
      by_cases hstate : next.state = .startRecord
      · rw [if_pos hstate] at hbehind
        obtain ⟨rows, hrows, hmore⟩ := ih hbehind fun _ => rfl
        refine ⟨next.fields.map String.ofList :: rows, ?_, fun more => ?_⟩
        · rw [readRowsFrom, hline]
          simp only [hstate, if_true, hrows]
        · rw [List.cons_append, readRowsFrom, hline]
          simp only [hstate, if_true, hmore more, List.cons_append]
      · rw [if_neg hstate] at hbehind
        -- The row goes on in the next line, of which there is one.
        have hopen : lines = [] → next = {} := by
          intro hnone
          rw [hnone] at hbehind
          exact Option.some.inj hbehind
        obtain ⟨rows, hrows, hmore⟩ := ih hbehind hopen
        refine ⟨rows, ?_, fun more => ?_⟩
        · rw [readRowsFrom, hline]
          simp only [hstate, if_false, hrows]
        · rw [List.cons_append, readRowsFrom, hline]
          simp only [hstate, if_false, hmore more]

/-- The rows of a head are the first rows of the file. -/
theorem readRows_append {delimiter : Char} {head : String} (h : EndsRecord delimiter head)
    (rest : String) :
    (readRows delimiter head).2 = none ∧ readRows delimiter (head ++ rest) =
      ((readRows delimiter head).1 ++ (readRows delimiter rest).1, (readRows delimiter rest).2) := by
  obtain ⟨hlast, hbehind⟩ := h
  have hlines : fileLinesFrom [] head.toList = [] → ({} : Reader) = {} := fun _ => rfl
  obtain ⟨rows, hrows, hmore⟩ := readRowsFrom_lines hbehind hlines
  unfold readRows
  rw [hrows, String.toList_append, fileLinesFrom_append _ _ _ hlast]
  exact ⟨rfl, hmore _⟩

/-! ## What the check foretells -/

section

variable {lib : TextLibrary} {config : Config} {head text : String}

/-- What the parser makes of a text, in one equation. -/
theorem parse_ok_iff {rows : List ParsedRow} {error : Option String} :
    parse lib config text = .ok (rows, error) ↔
      ∃ header records, readRows config.delimiter text = (header :: records, error) ∧ header ≠ [] ∧
        header.Nodup ∧ rows = ((records.filter (· ≠ [])).zipIdx 2).map fun (row, lineNo) =>
          parseRow lib config header row lineNo := by
  constructor
  · intro h
    rcases hread : readRows config.delimiter text with ⟨_ | ⟨header, records⟩, found⟩
    · cases found <;> simp [parse, hread] at h
    · by_cases hne : header = []
      · simp [parse, hread, hne] at h
      · by_cases hnodup : header.Nodup
        · rw [parse_accepted lib hread hne hnodup] at h
          cases h
          exact ⟨header, records, rfl, hne, hnodup, rfl⟩
        · simp [parse, hread, hne, hnodup] at h
  · intro h
    obtain ⟨header, records, hread, hne, hnodup, rfl⟩ := h
    exact parse_accepted lib hread hne hnodup

/-- A file is read as its head is, and then on. -/
theorem parse_append {rows : List ParsedRow} {error : Option String}
    (h : EndsRecord config.delimiter head) (hparse : parse lib config head = .ok (rows, error))
    (rest : String) :
    error = none ∧ readHeader config (head ++ rest) = readHeader config head ∧
      ∃ more error', parse lib config (head ++ rest) = .ok (rows ++ more, error') := by
  obtain ⟨hnone, happend⟩ := readRows_append h rest
  obtain ⟨header, records, hread, hne, hnodup, rfl⟩ := parse_ok_iff.mp hparse
  rw [hread] at hnone happend
  replace happend : readRows config.delimiter (head ++ rest) =
    (header :: (records ++ (readRows config.delimiter rest).1), _) := happend
  refine ⟨hnone, ?_, ?_⟩
  · rw [readHeader_of_readRows hread, readHeader_of_readRows happend]
  · have hwhole := parse_accepted lib happend hne hnodup
    rw [List.filter_append, List.zipIdx_append, List.map_append] at hwhole
    exact ⟨_, _, hwhole⟩

/-- What it takes for a check to pass. -/
theorem validateSample_passes_iff {maxRows : Nat} :
    (∃ report, validateSample lib config text maxRows = .ok report ∧ report.passes = true) ↔
      ∃ header rows error, readHeader config text = .ok header ∧
        blocksIngestion (compareHeader config header) = false ∧
        parse lib config text = .ok (rows, error) ∧ (rows.length < max 1 maxRows → error = none) ∧
        rows ≠ [] ∧ ∀ row ∈ rows.take (max 1 maxRows), row.isValid = true := by
  have hsome : ∀ rows : List ParsedRow, 0 < (rows.take (max 1 maxRows)).length ↔ rows ≠ [] := by
    intro rows
    rw [List.length_take, ← List.length_pos_iff]
    omega
  have hall : ∀ rows : List ParsedRow, (rows.filter (·.isValid)).length = rows.length ↔
      ∀ row ∈ rows, row.isValid = true := by
    intro rows
    rw [List.length_filter_eq_length_iff]
  unfold validateSample
  cases hheader : readHeader config text with
  | error error => simp
  | ok header =>
    cases hblocks : blocksIngestion (compareHeader config header) with
    | true => simp [hblocks, SampleReport.passes]
    | false =>
      cases hparse : parse lib config text with
      | error failure => cases failure <;> simp [hblocks, SampleReport.passes]
      | ok result =>
        obtain ⟨rows, error⟩ := result
        have htried : (if rows.length < max 1 maxRows then error else none) = none ↔
            (rows.length < max 1 maxRows → error = none) := by
          split
          · rename_i hfew
            exact ⟨fun h _ => h, fun h => h hfew⟩
          · rename_i hmany
            exact ⟨fun _ h => absurd h hmany, fun _ => rfl⟩
        simp only [hblocks, Bool.false_eq_true, if_false]
        cases hend : (if rows.length < max 1 maxRows then error else none) with
        | some message =>
          simp only [reduceCtorEq, false_and, exists_false, false_iff]
          intro h
          obtain ⟨_, _, _, -, -, hsame, herror, -⟩ := h
          cases hsame
          rw [htried.mpr herror] at hend
          cases hend
        | none =>
          constructor
          · intro h
            obtain ⟨report, hreport, hpasses⟩ := h
            cases hreport
            simp only [SampleReport.passes, hblocks, Bool.not_false, Bool.true_and,
              Bool.and_eq_true, decide_eq_true_eq, hsome, hall] at hpasses
            exact ⟨header, rows, error, rfl, hblocks, rfl, htried.mp hend, hpasses.1, hpasses.2⟩
          · intro h
            obtain ⟨_, _, _, -, -, hsame, -, hne, hvalid⟩ := h
            cases hsame
            refine ⟨_, rfl, ?_⟩
            simp only [SampleReport.passes, hblocks, Bool.not_false, Bool.true_and,
              Bool.and_eq_true, decide_eq_true_eq, hsome, hall]
            exact ⟨hne, hvalid⟩

/-- What it takes for a file to be ingested. -/
theorem ingest_ok_iff {bankCode : String} {rows : List ParsedRow} {change : Option FormatChange} :
    ingest lib config bankCode text = .ok (rows, change) ↔
      ∃ header, readHeader config text = .ok header ∧
        blocksIngestion (compareHeader config header) = false ∧
        parse lib config text = .ok (rows, none) ∧
        change = if hasDrift (compareHeader config header) then some (compareHeader config header)
          else none := by
  unfold ingest
  cases hheader : readHeader config text with
  | error error => simp
  | ok header =>
    cases hblocks : blocksIngestion (compareHeader config header) with
    | true => simp [hblocks]
    | false =>
      cases hparse : parse lib config text with
      | error failure => simp [hblocks]
      | ok result =>
        obtain ⟨parsed, error⟩ := result
        cases error with
        | some message => simp [hblocks]
        | none =>
          simp only [hblocks, Bool.false_eq_true, if_false, Except.ok.injEq, Prod.mk.injEq,
            exists_eq_left', and_true, true_and]
          exact and_congr_right fun _ => eq_comm

/-- What a check that passes says of a file with this head: it is not blocked or refused, and its first
rows are those of the head. -/
theorem ingest_of_passes {maxRows : Nat} (bankCode : String) (h : EndsRecord config.delimiter head)
    (rest : String)
    (hpasses : ∃ report, validateSample lib config head maxRows = .ok report ∧
      report.passes = true) :
    ∃ rows, rows ≠ [] ∧ (∀ row ∈ rows.take (max 1 maxRows), row.isValid = true) ∧
      parse lib config head = .ok (rows, none) ∧
      ((∃ more change, ingest lib config bankCode (head ++ rest) = .ok (rows ++ more, change)) ∨
        ∃ message, ingest lib config bankCode (head ++ rest) =
          .error (.raised (.environment message))) := by
  obtain ⟨header, rows, error, hheader, hblocks, hparse, -, hne, hvalid⟩ :=
    validateSample_passes_iff.mp hpasses
  obtain ⟨rfl, hsame, more, error', hwhole⟩ := parse_append h hparse rest
  refine ⟨rows, hne, hvalid, hparse, ?_⟩
  rw [hheader] at hsame
  cases error' with
  | none => exact .inl ⟨more, _, ingest_ok_iff.mpr ⟨header, hsame, hblocks, hwhole, rfl⟩⟩
  | some message =>
    right
    refine ⟨message, ?_⟩
    unfold ingest
    simp [hsame, hblocks, hwhole]

/-- A check of the head of a file that ingestion finds nothing wrong with. -/
theorem passes_of_ingest {maxRows : Nat} {bankCode : String}
    (h : EndsRecord config.delimiter head) {rest : String}
    {rows : List ParsedRow} {change : Option FormatChange}
    (hingest : ingest lib config bankCode (head ++ rest) = .ok (rows, change))
    (hvalid : ∀ row ∈ rows, row.isValid = true)
    (hrows : ∃ record ∈ (readRows config.delimiter head).1.tail, record ≠ []) :
    ∃ report, validateSample lib config head maxRows = .ok report ∧ report.passes = true := by
  obtain ⟨header, hheader, hblocks, hparse, -⟩ := ingest_ok_iff.mp hingest
  obtain ⟨record, hrecord, hne⟩ := hrows
  obtain ⟨hnone, happend⟩ := readRows_append h rest
  rcases hread : readRows config.delimiter head with ⟨_ | ⟨first, records⟩, error⟩
  · rw [hread] at hrecord
    cases hrecord
  · rw [hread] at hnone happend hrecord
    obtain ⟨header', records', hread', hheaderNe, hnodup, -⟩ := parse_ok_iff.mp hparse
    obtain ⟨rfl, -⟩ := List.cons.inj (congrArg Prod.fst (happend.symm.trans hread'))
    have hhead := parse_accepted lib hread hheaderNe hnodup
    obtain ⟨-, hsame, more, error', hwhole⟩ := parse_append h hhead rest
    rw [hparse] at hwhole
    cases hwhole
    apply validateSample_passes_iff.mpr
    refine ⟨header, _, _, ?_, hblocks, hhead, fun _ => hnone, ?_, ?_⟩
    · rw [← hsame, hheader]
    · intro hnil
      have hkept : record ∈ records.filter (· ≠ []) :=
        List.mem_filter.mpr ⟨hrecord, decide_eq_true hne⟩
      rw [List.map_eq_nil_iff, List.zipIdx_eq_nil_iff] at hnil
      rw [hnil] at hkept
      cases hkept
    · intro row hrow
      exact hvalid row (List.mem_append_left _ (List.mem_of_mem_take hrow))

end

/-- What a candidate with a CSV section is asked. -/
theorem validateCandidate_ok_iff {lib : TextLibrary} {candidate : Candidate} {config : Config}
    (hcsv : candidate.csv = some config) {text : String} :
    (∃ report, validateCandidate lib (.ok candidate) (some text) = .ok report ∧
        report.ok = true) ↔
      ∃ sample, validateSample lib config text defaultSampleRows = .ok sample ∧
        sample.passes = true := by
  simp only [validateCandidate, hcsv]
  cases validateSample lib config text defaultSampleRows with
  | error error => simp [Except.map]
  | ok sample => simp [Except.map]

/-- **The law of trying out.** Where a sample is the head of a file, a check that passes means that
ingestion neither blocks nor refuses the file and that the first rows of the file, which are those of the
sample, are valid as far as they were tried, unless the reader itself fails further on; and where
ingestion finds nothing wrong with the file, the check of a sample with rows passes. -/
theorem validateCandidate_foretells (lib : TextLibrary) (candidate : Candidate) {config : Config}
    (hcsv : candidate.csv = some config) {head : String} (h : EndsRecord config.delimiter head)
    (rest : String) :
    ((∃ report, validateCandidate lib (.ok candidate) (some head) = .ok report ∧
        report.ok = true) →
      ∃ rows, rows ≠ [] ∧ (∀ row ∈ rows.take defaultSampleRows, row.isValid = true) ∧
        parse lib config head = .ok (rows, none) ∧
        ((∃ more change,
          ingest lib config candidate.bankCode (head ++ rest) = .ok (rows ++ more, change)) ∨
          ∃ message, ingest lib config candidate.bankCode (head ++ rest) =
            .error (.raised (.environment message)))) ∧
      ((∃ rows change, ingest lib config candidate.bankCode (head ++ rest) = .ok (rows, change) ∧
          ∀ row ∈ rows, row.isValid = true) →
        (∃ record ∈ (readRows config.delimiter head).1.tail, record ≠ []) →
        ∃ report, validateCandidate lib (.ok candidate) (some head) = .ok report ∧
          report.ok = true) := by
  rw [validateCandidate_ok_iff hcsv]
  constructor
  · intro hpasses
    exact ingest_of_passes candidate.bankCode h rest hpasses
  · intro hclean hrows
    obtain ⟨rows, change, hingest, hvalid⟩ := hclean
    exact passes_of_ingest h hingest hvalid hrows

/-- A library that reads days and decimals. -/
def notationLibrary : TextLibrary where
  strptime := strptimeDay fun _ _ => none
  zoneInfo _ := none
  decimal := readDecimal

/-- A header and one payment. -/
def onePaymentFile : String :=
  "Reference,Date,Amount,Direction\nPAY42,2026-03-01,250.00,CR\n"

/-- A file that goes on well makes the check of its head pass, whatever another one goes on with. -/
theorem validateCandidate_foretells_payment :
    ∃ rows, rows ≠ [] ∧ parse notationLibrary plainConfig onePaymentFile = .ok (rows, none) ∧
      ((∃ more change, ingest notationLibrary plainConfig "ACME"
        (onePaymentFile ++ "PAY43,2026-03-01,,CR\n") = .ok (rows ++ more, change)) ∨
        ∃ message, ingest notationLibrary plainConfig "ACME"
          (onePaymentFile ++ "PAY43,2026-03-01,,CR\n") =
            .error (.raised (.environment message))) := by
  have hends : EndsRecord plainConfig.delimiter onePaymentFile := by decide +kernel
  have hlaw := @validateCandidate_foretells notationLibrary ⟨"ACME", "1", some plainConfig⟩
    plainConfig rfl onePaymentFile hends
  have hclean : ((ingest notationLibrary plainConfig "ACME"
      (onePaymentFile ++ "PAY43,2026-03-02,75.50,DR\n")).toOption.map
        fun result => result.1.all (·.isValid)) = some true := by decide +kernel
  have hpasses := (hlaw "PAY43,2026-03-02,75.50,DR\n").2
  cases hingest : ingest notationLibrary plainConfig "ACME"
      (onePaymentFile ++ "PAY43,2026-03-02,75.50,DR\n") with
  | error error =>
    rw [hingest] at hclean
    cases hclean
  | ok result =>
    rw [hingest] at hclean
    have hvalid : ∀ row ∈ result.1, row.isValid = true :=
      List.all_eq_true.mp (Option.some.inj hclean)
    obtain ⟨rows, hne, -, hparse, hforetold⟩ := (hlaw "PAY43,2026-03-01,,CR\n").1
      (hpasses ⟨result.1, result.2, hingest, hvalid⟩ (by decide +kernel))
    exact ⟨rows, hne, hparse, hforetold⟩

end Recon.Csv
