import ReconEngine.Ingestion.Mt940Laws

/-!
# CSV files

The reader of the standard library is a machine that is fed one line at a time and gives a row when
it is back at the start of a record. The parser reads the first row as the names of the columns and
makes a row of every other one that is not empty.

Before a file is parsed, `compare_header` reads the same first row and says which of the columns
that the bank's configuration names are missing. **The law** (`header_agrees_iff`): the check and
the parser agree unless a name is there with blanks around it, for the check strips the names and
the parser does not.

**What it does not establish.** What a column contains: the check is of names. A file whose bytes
cannot be decoded has no header to check; decoding is not modelled.
-/

set_option autoImplicit false

namespace Recon.Csv

/-! ## The reader -/

inductive ReaderState where
  | startRecord
  | startField
  | inField
  | inQuotedField
  | quoteInQuotedField
  | eatCrnl
deriving DecidableEq, Repr

structure Reader where
  state : ReaderState := .startRecord
  field : List Char := []
  fields : List (List Char) := []
deriving DecidableEq, Repr

def fieldLimit : Nat := 131072

namespace Reader

variable (r : Reader)

/-- `parse_save_field`. -/
def save (next : ReaderState) : Reader := ⟨next, [], r.fields ++ [r.field]⟩

/-- `parse_add_char`. -/
def add (c : Char) (next : ReaderState) : Except String Reader :=
  if fieldLimit ≤ r.field.length then .error "field larger than field limit (131072)"
  else .ok { r with state := next, field := r.field ++ [c] }

/-- A character where a field begins. -/
def beginField (delimiter c : Char) : Except String Reader :=
  if c = '\n' ∨ c = '\r' then .ok (r.save .eatCrnl)
  else if c = '"' then .ok { r with state := .inQuotedField }
  else if c = delimiter then .ok (r.save .startField)
  else r.add c .inField

/-- `parse_process_char`, for a character. -/
def processChar (delimiter : Char) (c : Char) : Except String Reader :=
  match r.state with
  | .startRecord =>
    if c = '\n' ∨ c = '\r' then .ok { r with state := .eatCrnl } else r.beginField delimiter c
  | .startField => r.beginField delimiter c
  | .inField =>
    if c = '\n' ∨ c = '\r' then .ok (r.save .eatCrnl)
    else if c = delimiter then .ok (r.save .startField)
    else r.add c .inField
  | .inQuotedField =>
    if c = '"' then .ok { r with state := .quoteInQuotedField } else r.add c .inQuotedField
  | .quoteInQuotedField =>
    if c = '"' then r.add c .inQuotedField
    else if c = delimiter then .ok (r.save .startField)
    else if c = '\n' ∨ c = '\r' then .ok (r.save .eatCrnl)
    else r.add c .inField
  | .eatCrnl =>
    if c = '\n' ∨ c = '\r' then .ok r
    else .error "new-line character seen in unquoted field"

/-- `parse_process_char`, at the end of a line. -/
def endLine : Reader :=
  match r.state with
  | .startRecord => r
  | .startField => r.save .startRecord
  | .inField => r.save .startRecord
  | .inQuotedField => r
  | .quoteInQuotedField => r.save .startRecord
  | .eatCrnl => { r with state := .startRecord }

/-- A whole line. -/
def processLine (delimiter : Char) (line : List Char) : Except String Reader :=
  (line.foldlM (fun (r : Reader) c => r.processChar delimiter c) r).map endLine

end Reader

/-- The lines of a file with their ends, after the characters of an unfinished line. -/
def fileLinesFrom : List Char → List Char → List (List Char)
  | line, [] => if line = [] then [] else [line]
  | line, '\r' :: '\n' :: rest => (line ++ ['\r', '\n']) :: fileLinesFrom [] rest
  | line, c :: rest =>
    if c = '\n' ∨ c = '\r' then (line ++ [c]) :: fileLinesFrom [] rest
    else fileLinesFrom (line ++ [c]) rest

/-- The rows that the reader gives, and the error that ends them, if one does. A file that ends
within quotes ends its last row. -/
def readRowsFrom (delimiter : Char) : Reader → List (List Char) → List (List String) × Option String
  | r, [] =>
    if r.field ≠ [] ∨ r.state = .inQuotedField then
      ([(r.fields ++ [r.field]).map String.ofList], none)
    else ([], none)
  | r, line :: lines =>
    match r.processLine delimiter line with
    | .error message => ([], some message)
    | .ok next =>
      if next.state = .startRecord then
        let (rows, error) := readRowsFrom delimiter {} lines
        (next.fields.map String.ofList :: rows, error)
      else readRowsFrom delimiter next lines

/-- `csv.reader`, over a whole file. -/
def readRows (delimiter : Char) (text : String) : List (List String) × Option String :=
  readRowsFrom delimiter {} (fileLinesFrom [] text.toList)

/-! ## The configuration -/

def requiredMappedFields : List String := ["reference", "txn_date", "amount", "direction"]

/-- The CSV section of a bank; its mapping is a dictionary that names a column for every core
field. -/
structure Config extends CsvFormat where
  delimiter : Char := ','
  /-- The canonical fields with the columns they are taken from. -/
  columnMapping : List (String × String)
  keys : (columnMapping.map (·.1)).Nodup
  core : ∀ field ∈ requiredMappedFields, field ∈ columnMapping.map (·.1)

/-! ## The header check -/

structure FormatChange where
  missing : List String
  unexpected : List String
  reordered : Bool
  header : List String
deriving DecidableEq, Repr

/-- `expected_columns`. -/
def expectedColumns (config : Config) : List String :=
  (config.columnMapping.map (·.2)).eraseDups

def compareHeader (config : Config) (header : List String) : FormatChange :=
  let expected := expectedColumns config
  let present := header.map strip
  let missing := expected.filter (· ∉ present)
  { missing
    unexpected := present.filter fun name => name ≠ "" ∧ name ∉ expected
    reordered := missing = [] && present.filter (· ∈ expected) ≠ expected
    header := present }

/-- `read_header`: the first row, none for an empty file. -/
def readHeader (config : Config) (text : String) : Except ReconError (List String) :=
  match readRows config.delimiter text with
  | (header :: _, _) => .ok header
  | ([], none) => .ok []
  | ([], some message) => .error (.environment message)

/-! ## The parser -/

section

variable (lib : TextLibrary) (config : Config)

/-- The row as a dictionary of the names of the columns; a value that is not there is empty. -/
def rawFields (header row : List String) : List (String × String) :=
  header.zipIdx.map fun (name, index) => (name, row.getD index "")

def columnMissing (canonical column : String) : ParseError :=
  ⟨"MISSING_REQUIRED_FIELD", some canonical,
    "source column " ++ pythonRepr column ++ " not present in this row"⟩

/-- `_extract_mapped_fields`: the fields whose column is there. -/
def mappedFields (raw : List (String × String)) : List (String × String) :=
  config.columnMapping.filterMap fun (canonical, column) =>
    (raw.lookup column).map (canonical, ·)

/-- The errors of `_extract_mapped_fields`; a required field whose column is missing has only the
one error. -/
def mappingErrors (raw : List (String × String)) : List ParseError :=
  let missing := config.columnMapping.filter fun (_, column) => (raw.lookup column).isNone
  missing.map (fun (canonical, column) => columnMissing canonical column) ++
    (requiredMappedFields.filter fun field => field ∉ missing.map (·.1) ∧
      strip (((mappedFields config raw).lookup field).getD "") = "").map fun field =>
        ⟨"MISSING_REQUIRED_FIELD", some field, "value is empty after extraction"⟩

/-- `_validate_date`. -/
def dateErrors (mapped : List (String × String)) : List ParseError :=
  let text := (mapped.lookup "txn_date").getD ""
  if strip text ≠ "" ∧ (lib.strptime (strip text) config.dateFormat).isNone then
    [⟨"INVALID_DATE", some "txn_date",
      pythonRepr text ++ " does not match expected format " ++ pythonRepr config.dateFormat⟩]
  else []

/-- The amount as the parser hands it to `Decimal`. -/
def amountText (text : String) : String :=
  let text := match config.amountThousandsSeparator with
    | some separator => if separator = "" then text else replaceText text separator ""
    | none => text
  if config.amountDecimalSeparator = "." then text
  else replaceText text config.amountDecimalSeparator "."

/-- `_validate_amount`. -/
def amountErrors (mapped : List (String × String)) : List ParseError :=
  let text := strip ((mapped.lookup "amount").getD "")
  if text ≠ "" ∧ lib.decimal (amountText config text) = .invalid then
    [⟨"INVALID_AMOUNT", some "amount",
      pythonRepr text ++ " could not be parsed as a decimal amount"⟩]
  else []

/-- `_parse_row`. -/
def parseRow (header row : List String) (lineNo : Nat) : ParsedRow :=
  let raw := rawFields header row
  let mapped := mappedFields config raw
  { lineNo := lineNo
    rawFields := raw
    mapped := mapped
    errors :=
      (if header.length < row.length then
        [⟨"ROW_LENGTH_MISMATCH", none, "row has more values than the header defines"⟩] else []) ++
      mappingErrors config raw ++ dateErrors lib config mapped ++ amountErrors lib config mapped }

/-- `CSVParser.parse`: the rows that it yields, and the error of the reader that ends them. The
dictionary reader passes over empty rows. -/
def parse (text : String) : Parsing (List ParsedRow × Option String) :=
  match readRows config.delimiter text with
  | ([], some message) => .error (.raised (.environment message))
  | ([], none) => .error (.refused "file is empty or has no header row")
  | (header :: rows, error) =>
    if header = [] then .error (.refused "file is empty or has no header row")
    else if ¬ header.Nodup then .error (.refused "duplicate column header(s)")
    else
      .ok (((rows.filter (· ≠ [])).zipIdx 2).map fun (row, lineNo) =>
        parseRow lib config header row lineNo, error)

end

/-! ## The check and the parser -/

section

variable {lib : TextLibrary} {config : Config} {header : List String}

/-- A column is missing from a row when it is missing from the header. -/
theorem lookup_rawFields {row : List String} {column : String} :
    ((rawFields header row).lookup column).isNone = true ↔ column ∉ header := by
  rw [Option.isNone_iff_eq_none, List.lookup_eq_none_iff]
  simp only [rawFields, List.mem_map, Prod.exists, forall_exists_index, and_imp]
  constructor
  · intro h hmem
    obtain ⟨index, hindex, rfl⟩ := List.mem_iff_getElem.mp hmem
    have := h (header[index], row.getD index "") header[index] index
      (List.mem_zipIdx_iff_getElem?.mpr (by simp [hindex])) rfl
    simp at this
  · rintro h _ name index hmem rfl
    have hname : name ∈ header := List.fst_mem_of_mem_zipIdx hmem
    simp only [bne_iff_ne, ne_eq]
    rintro rfl
    exact h hname

/-- The message for a column names its field, and a field has one column. -/
theorem columnMissing_inj {canonical column canonical' column' : String}
    (hmapped : (canonical, column) ∈ config.columnMapping)
    (hmapped' : (canonical', column') ∈ config.columnMapping)
    (h : columnMissing canonical column = columnMissing canonical' column') : column = column' := by
  have hfield : canonical = canonical' := Option.some.inj (congrArg (·.field) h)
  exact congrArg Prod.snd (List.inj_on_of_nodup_map config.keys hmapped hmapped' hfield)

/-- The message for a column is not that for a value. -/
theorem columnMissing_ne_empty (canonical column field : String) :
    columnMissing canonical column ≠
      ⟨"MISSING_REQUIRED_FIELD", some field, "value is empty after extraction"⟩ := by
  intro h
  have hdetail := congrArg (fun e => e.detail.toList.head?) h
  simp [columnMissing] at hdetail

/-- A row has the error of a mapped column exactly when the header does not have the column. -/
theorem columnMissing_mem_iff {row : List String} {lineNo : Nat} {canonical column : String}
    (hmapped : (canonical, column) ∈ config.columnMapping) :
    columnMissing canonical column ∈ (parseRow lib config header row lineNo).errors ↔
      column ∉ header := by
  simp only [parseRow, List.mem_append]
  constructor
  · rintro (((hlength | hmapping) | hdate) | hamount)
    · split at hlength
      · exact absurd (congrArg (·.code) (List.mem_singleton.mp hlength)) (by simp [columnMissing])
      · exact absurd hlength List.not_mem_nil
    · rw [mappingErrors, List.mem_append] at hmapping
      obtain hmissing | hempty := hmapping
      · obtain ⟨⟨canonical', column'⟩, hmem, heq⟩ := List.mem_map.mp hmissing
        rw [← columnMissing_inj (List.mem_of_mem_filter hmem) hmapped heq]
        exact lookup_rawFields.mp (List.mem_filter.mp hmem).2
      · obtain ⟨field, -, heq⟩ := List.mem_map.mp hempty
        exact absurd heq.symm (columnMissing_ne_empty _ _ _)
    · simp only [dateErrors] at hdate
      split at hdate
      · exact absurd (congrArg (·.code) (List.mem_singleton.mp hdate)) (by simp [columnMissing])
      · exact absurd hdate List.not_mem_nil
    · simp only [amountErrors] at hamount
      split at hamount
      · exact absurd (congrArg (·.code) (List.mem_singleton.mp hamount)) (by simp [columnMissing])
      · exact absurd hamount List.not_mem_nil
  · intro h
    refine Or.inl (Or.inl (Or.inr (List.mem_append_left _ ?_)))
    refine List.mem_map.mpr ⟨(canonical, column), ?_, rfl⟩
    exact List.mem_filter.mpr ⟨hmapped, lookup_rawFields.mpr h⟩

/-- Nothing is missing when every mapped column is a name of the header without its blanks. -/
theorem missing_nil_iff : (compareHeader config header).missing = [] ↔
    ∀ pair ∈ config.columnMapping, pair.2 ∈ header.map strip := by
  simp only [compareHeader, List.filter_eq_nil_iff, expectedColumns, List.mem_eraseDups,
    List.mem_map, decide_not, Bool.not_eq_true', decide_eq_false_iff_not, not_not,
    forall_exists_index, and_imp]
  constructor
  · exact fun h pair hpair => h pair.2 pair hpair rfl
  · rintro h _ pair hpair rfl
    exact h pair hpair

end

/-- What is asked of the check: a header that it does not block is refused by the parser, or its
columns are there for every row. -/
def HeaderAgrees (lib : TextLibrary) (config : Config) (text : String) : Prop :=
  ∀ header, readHeader config text = .ok header → (compareHeader config header).missing = [] →
    (∃ message, parse lib config text = .error (.refused message)) ∨
      ∃ rows error, parse lib config text = .ok (rows, error) ∧
        ∀ row ∈ rows, ∀ pair ∈ config.columnMapping, columnMissing pair.1 pair.2 ∉ row.errors

section

variable {config : Config} {text : String} {header : List String} {rows : List (List String)}
  {error : Option String}

/-- The header check reads the first row that the parser reads. -/
theorem readHeader_of_readRows (h : readRows config.delimiter text = (header :: rows, error)) :
    readHeader config text = .ok header := by
  simp [readHeader, h]

/-- The parser refuses a header without names or with one name twice. -/
theorem parse_refused (lib : TextLibrary) (h : readRows config.delimiter text = (header :: rows, error))
    (hbad : header = [] ∨ ¬ header.Nodup) :
    ∃ message, parse lib config text = .error (.refused message) := by
  by_cases hempty : header = []
  · exact ⟨"file is empty or has no header row", by simp [parse, h, hempty]⟩
  · have hdup : ¬ header.Nodup := hbad.resolve_left hempty
    exact ⟨"duplicate column header(s)", by simp [parse, h, hempty, hdup]⟩

/-- A file whose header is usable is parsed. -/
theorem parse_accepted (lib : TextLibrary) (h : readRows config.delimiter text = (header :: rows, error))
    (hne : header ≠ []) (hnodup : header.Nodup) :
    parse lib config text = .ok (((rows.filter (· ≠ [])).zipIdx 2).map fun (row, lineNo) =>
      parseRow lib config header row lineNo, error) := by
  simp only [parse, h, hne, if_false, hnodup, not_true_eq_false]

/-- The mapping is not empty, so a header that has all its columns is not empty either. -/
theorem header_ne_nil (h : ∀ pair ∈ config.columnMapping, pair.2 ∈ header.map strip) :
    header ≠ [] := by
  rintro rfl
  obtain ⟨pair, hpair, -⟩ := List.mem_map.mp (config.core "reference" (by simp [requiredMappedFields]))
  exact absurd (h pair hpair) (by simp)

end

/-- **The check and the parser agree exactly when the mapped columns stand in the header as they
are**, or the file is blocked, refused for its names or without rows. -/
theorem header_agrees_iff (lib : TextLibrary) (config : Config) (text : String) :
    HeaderAgrees lib config text ↔
      ∀ header rows error, readRows config.delimiter text = (header :: rows, error) →
        (∀ pair ∈ config.columnMapping, pair.2 ∈ header.map strip) → header.Nodup →
        (∃ row ∈ rows, row ≠ []) → ∀ pair ∈ config.columnMapping, pair.2 ∈ header := by
  constructor
  · intro h header rows error hread hstripped hnodup hrow pair hpair
    obtain ⟨row, hrow, hne⟩ := hrow
    have hparse := parse_accepted lib hread (header_ne_nil hstripped) hnodup
    obtain ⟨message, hrefused⟩ | ⟨parsed, error', hparsed, hclean⟩ :=
      h header (readHeader_of_readRows hread) (missing_nil_iff.mpr hstripped)
    · rw [hparse] at hrefused
      cases hrefused
    · rw [hparse] at hparsed
      cases hparsed
      have hkept : row ∈ ((rows.filter (· ≠ [])).zipIdx 2).map (·.1) := by
        rw [List.zipIdx_map_fst]
        exact List.mem_filter.mpr ⟨hrow, decide_eq_true hne⟩
      obtain ⟨⟨_, lineNo⟩, hline, rfl⟩ := List.mem_map.mp hkept
      by_contra hmissing
      exact hclean _ (List.mem_map.mpr ⟨_, hline, rfl⟩) pair hpair
        ((columnMissing_mem_iff hpair).mpr hmissing)
  · intro h header hheader hnone
    rcases hread : readRows config.delimiter text with ⟨_ | ⟨first, rows⟩, error⟩
    · left
      cases error with
      | none => exact ⟨"file is empty or has no header row", by simp [parse, hread]⟩
      | some message => simp [readHeader, hread] at hheader
    · rw [readHeader_of_readRows hread] at hheader
      cases hheader
      have hstripped := missing_nil_iff.mp hnone
      by_cases hnodup : header.Nodup
      · refine Or.inr ⟨_, error, parse_accepted lib hread (header_ne_nil hstripped) hnodup, ?_⟩
        intro row hrow pair hpair
        obtain ⟨⟨raw, lineNo⟩, hline, rfl⟩ := List.mem_map.mp hrow
        obtain ⟨hraw, hne⟩ := List.mem_filter.mp (List.fst_mem_of_mem_zipIdx hline)
        rw [columnMissing_mem_iff hpair, not_not]
        exact h header rows error hread hstripped hnodup ⟨raw, hraw, of_decide_eq_true hne⟩ pair hpair
      · exact Or.inl (parse_refused lib hread (Or.inr hnodup))

/-! ## A column with a blank -/

/-- A bank whose columns are called as their fields. -/
def plainConfig : Config where
  dateFormat := "%Y-%m-%d"
  columnMapping := [("reference", "Reference"), ("txn_date", "Date"), ("amount", "Amount"),
    ("direction", "Direction")]
  keys := by decide
  core := by decide

/-- A header with a blank before one name, and one row. -/
def blankColumn : String := "Reference,Date, Amount,Direction\nPAY42,2026-03-01,250.00,CR\n"

theorem blankColumn_read : readRows ',' blankColumn =
    ([["Reference", "Date", " Amount", "Direction"], ["PAY42", "2026-03-01", "250.00", "CR"]],
      none) := by
  decide +kernel

/-- The file is not blocked, and its row has no amount. -/
theorem blankColumn_disagrees :
    ¬ ∀ (lib : TextLibrary) (config : Config) (text : String), HeaderAgrees lib config text := by
  intro h
  have hstripped : (compareHeader plainConfig ["Reference", "Date", " Amount", "Direction"]).missing =
      [] := by
    decide +kernel
  have hparse : parse Mt940.statementLibrary plainConfig blankColumn =
      .ok ([parseRow Mt940.statementLibrary plainConfig ["Reference", "Date", " Amount", "Direction"]
        ["PAY42", "2026-03-01", "250.00", "CR"] 2], none) := by
    have hread : readRows plainConfig.delimiter blankColumn = _ := blankColumn_read
    rw [parse_accepted Mt940.statementLibrary hread (List.cons_ne_nil _ _) (by decide)]
    rfl
  obtain ⟨message, hrefused⟩ | ⟨rows, error, hrows, hclean⟩ :=
    h Mt940.statementLibrary plainConfig blankColumn _ (readHeader_of_readRows blankColumn_read)
      hstripped
  · rw [hparse] at hrefused
    cases hrefused
  · rw [hparse] at hrows
    cases hrows
    have hamount : ("amount", "Amount") ∈ plainConfig.columnMapping := by decide
    exact hclean _ List.mem_cons_self _ hamount ((columnMissing_mem_iff hamount).mpr (by decide))

end Recon.Csv
