import ReconEngine.Ingestion.Csv
import ReconEngine.Numeric.Median
import ReconEngine.Numeric.DoubleRounding

/-!
# Files of exchange rates

`parse_fx_csv` reads a rate from every row of a file or says what is wrong with the row, and marks
the rates that are too far from the median of their currency and source in the file. It computes in
the decimal context, so that the median and the deviation are rounded on the way.

**The law** (`parseFxCsv_lines`): every row that is not empty becomes one rate or one error, under
its own line, and every rate is positive, of three letters and not too large.

**What it does not establish.** How a text is read as a decimal or a date, and which letters are
upper case: the library is a parameter (`FxLibrary`). Which rates are marked is `Fx.Marks`.
-/

set_option autoImplicit false

namespace Recon

open Numeric

/-! ## The rows of a file -/

/-- What the loader uses of the standard library besides the readers of numbers, dates and letters. -/
structure FxLibrary extends TextLibrary where
  lower : String → String

/-- The lines of a text in memory with their ends, after the characters of an unfinished line. Only
a line feed ends one. -/
def bufferLinesFrom : List Char → List Char → List (List Char)
  | line, [] => if line = [] then [] else [line]
  | line, c :: rest =>
    if c = '\n' then (line ++ [c]) :: bufferLinesFrom [] rest else bufferLinesFrom (line ++ [c]) rest

/-- `row.get(name)` of the dictionary reader: the last column of that name counts, and a row that ends
before it has no value. -/
def fieldOf (fields row : List String) (name : String) : Option String := do
  let column ← (fields.zipIdx.filter (·.1 = name)).getLast?
  row[column.2]?

/-- `value or other`: a text that is there and is not empty. -/
def nonEmpty (value : Option String) : Option String := value.filter (· ≠ "")

structure SuspectReason where
  deviation : Rat
  median : Rat
deriving DecidableEq, Repr

structure ParsedFxRate where
  lineNo : Nat
  rateDate : Date
  currency : String
  rateInr : Rat
  source : FxSource
  suspect : Bool := false
  suspectReason : Option SuspectReason := none
deriving DecidableEq, Repr

structure FxLoadError where
  lineNo : Nat
  detail : String
deriving DecidableEq, Repr

structure FxLoadResult where
  rates : List ParsedFxRate := []
  errors : List FxLoadError := []
deriving DecidableEq, Repr

def FxLoadResult.suspects (result : FxLoadResult) : List ParsedFxRate :=
  result.rates.filter (·.suspect)

/-- How a file fails: with a `ValueError`, or with an error of the CSV reader. -/
inductive FxFileError where
  | valueError (detail : String)
  | csvError (message : String)
deriving DecidableEq, Repr

def minPoints : Nat := 3

def defaultOutlierPercent : Rat := 5

def maxFxRate : Rat := 1000000

def FxSource.ofText (text : String) : Option FxSource :=
  [FxSource.rbi, .fbil, .bankCard].find? (·.text = text)

section

variable (lib : FxLibrary)

/-- `repr` of a value that may not be there. -/
def reprValue : Option String → String
  | none => "None"
  | some text => pythonRepr text

/-- `_parse_date`. -/
def parseFxDate (text : String) : Except String Date :=
  match ["%Y-%m-%d", "%d-%m-%Y"].findSome? (lib.strptime (strip text)) with
  | some parsed => .ok parsed.date
  | none => .error ("unrecognised date " ++ pythonRepr text)

/-- The rate of a row, positive and not too large. -/
def parseFxNumber (rawRate : String) : Except String Rat :=
  match lib.decimal rawRate with
  | .invalid => .error ("invalid rate " ++ pythonRepr rawRate)
  | .finite rate =>
    if rate ≤ 0 ∨ maxFxRate < rate then
      .error ("rate " ++ pythonRepr rawRate ++ " is out of range")
    else .ok rate
  | _ => .error ("rate " ++ pythonRepr rawRate ++ " is out of range")

/-- `_parse_row`. -/
def parseFxRow (lineNo : Nat) (get : String → Option String) : Except String ParsedFxRate := do
  let currency := lib.upper (strip ((get "currency").getD ""))
  if currency.length ≠ 3 ∨ ¬ currency.toList.all lib.isAlpha then
    throw ("invalid currency " ++ reprValue (get "currency"))
  let rate ← parseFxNumber lib
    (strip ((nonEmpty (get "rate") <|> nonEmpty (get "rate_inr")).getD ""))
  let sourceText := lib.upper (strip ((nonEmpty (get "source")).getD "RBI"))
  match FxSource.ofText sourceText with
  | none => throw ("unknown source " ++ pythonRepr sourceText)
  | some source =>
    let rateDate ← parseFxDate lib ((get "date").getD "")
    return { lineNo, rateDate, currency, rateInr := rate, source }

/-- A row that cannot be read is reported and passed over. -/
def loadFxRow (result : FxLoadResult) (lineNo : Nat) (get : String → Option String) :
    FxLoadResult :=
  match parseFxRow lib lineNo get with
  | .ok rate => { result with rates := result.rates ++ [rate] }
  | .error detail => { result with errors := result.errors ++ [⟨lineNo, detail⟩] }

end

/-! ## Marks -/

/-- The rates of one currency and source in the file. -/
def seriesRates (rates : List ParsedFxRate) (r : ParsedFxRate) : List Rat :=
  (rates.filter fun other => other.currency = r.currency ∧ other.source = r.source).map (·.rateInr)

/-- The median that a rate is compared with: `statistics.median` of decimals. -/
def fileMedian (rates : List ParsedFxRate) (r : ParsedFxRate) : Option Rat :=
  let values := seriesRates rates r
  if minPoints ≤ values.length then median (fun a b => rounded (rounded (a + b) / 2)) values
  else none

/-- The deviation in percent, as the decimal context computes it. -/
def fxDeviation (rateInr mid : Rat) : Rat :=
  rounded (rounded (rounded |rounded (rateInr - mid)| / mid) * 100)

/-- One turn of the loop of `_flag_outliers`. -/
def flagOutlier (outlierPercent : Rat) (rates : List ParsedFxRate) (r : ParsedFxRate) :
    ParsedFxRate :=
  match fileMedian rates r with
  | none => r
  | some mid =>
    let deviation := fxDeviation r.rateInr mid
    if outlierPercent < deviation then
      { r with suspect := true, suspectReason := some ⟨deviation, mid⟩ }
    else r

/-- `_flag_outliers`. -/
def flagOutliers (outlierPercent : Rat) (rates : List ParsedFxRate) : List ParsedFxRate :=
  rates.map (flagOutlier outlierPercent rates)

section

variable (lib : FxLibrary)

/-- The names of the columns, without blanks around them and in lower case. -/
def fxFields (header : List String) : List String := header.map fun f => lib.lower (strip f)

/-- The rows after the header, of which empty ones are passed over. -/
def loadFxRows (fields : List String) (rows : List (List String)) : FxLoadResult :=
  ((rows.filter (· ≠ [])).zipIdx 2).foldl
    (fun result row => loadFxRow lib result row.2 (fieldOf fields row.1)) {}

def missingFxColumns : FxFileError := .valueError "fx file needs the columns: date, currency, rate"

/-- `parse_fx_csv`. -/
def parseFxCsv (outlierPercent : Rat) (text : String) : Except FxFileError FxLoadResult :=
  match Csv.readRowsFrom ',' {} (bufferLinesFrom [] text.toList) with
  | ([], some message) => .error (.csvError message)
  | ([], none) => .error missingFxColumns
  | (header :: rows, error) =>
    let fields := fxFields lib header
    if ¬ ("date" ∈ fields ∧ "currency" ∈ fields ∧ ("rate" ∈ fields ∨ "rate_inr" ∈ fields)) then
      .error missingFxColumns
    else match error with
      | some message => .error (.csvError message)
      | none =>
        let result := loadFxRows lib fields rows
        .ok { result with rates := flagOutliers outlierPercent result.rates }

end

/-! ## What is read -/

/-- What every rate that is read has. -/
structure ParsedFxRate.Accepted (lib : FxLibrary) (r : ParsedFxRate) : Prop where
  pos : 0 < r.rateInr
  atMost : r.rateInr ≤ maxFxRate
  length : r.currency.length = 3
  letters : r.currency.toList.all lib.isAlpha = true

section

variable {lib : FxLibrary}

/-- A rate that is read is positive and not too large. -/
theorem parseFxNumber_bounds {rawRate : String} {rate : Rat}
    (h : parseFxNumber lib rawRate = .ok rate) : 0 < rate ∧ rate ≤ maxFxRate := by
  unfold parseFxNumber at h
  split at h
  · cases h
  · split at h
    · cases h
    · rename_i hrange
      cases h
      exact not_or.mp hrange |>.imp not_le.mp not_lt.mp
  · cases h

/-- What is read of a row satisfies what was checked of it. -/
theorem parseFxRow_accepted {lineNo : Nat} {get : String → Option String} {r : ParsedFxRate}
    (h : parseFxRow lib lineNo get = .ok r) :
    r.Accepted lib ∧ r.lineNo = lineNo ∧ r.suspect = false := by
  unfold parseFxRow at h
  dsimp only at h
  split at h
  · cases h
  · rename_i hcurrency
    rw [not_or, not_not, not_not] at hcurrency
    cases hnumber : parseFxNumber lib
        (strip ((nonEmpty (get "rate") <|> nonEmpty (get "rate_inr")).getD "")) with
    | error detail =>
      rw [hnumber] at h
      cases h
    | ok rate =>
      rw [hnumber] at h
      obtain ⟨hpos, hmax⟩ := parseFxNumber_bounds hnumber
      cases hsource : FxSource.ofText (lib.upper (strip ((nonEmpty (get "source")).getD "RBI"))) with
      | none =>
        simp only [hsource] at h
        cases h
      | some source =>
        simp only [hsource] at h
        cases hdate : parseFxDate lib ((get "date").getD "") with
        | error detail =>
          rw [hdate] at h
          cases h
        | ok rateDate =>
          rw [hdate] at h
          cases h
          exact ⟨⟨hpos, hmax, hcurrency.1, hcurrency.2⟩, rfl, rfl⟩

/-- Rows one after another: every row becomes a rate or an error. -/
theorem foldl_loadFxRow (get : List String → String → Option String) :
    ∀ (rows : List (List String × Nat)) (result : FxLoadResult),
      let loaded := rows.foldl (fun result row => loadFxRow lib result row.2 (get row.1)) result
      (loaded.rates.map (·.lineNo) ++ loaded.errors.map (·.lineNo)).Perm
          (result.rates.map (·.lineNo) ++ result.errors.map (·.lineNo) ++ rows.map (·.2)) ∧
        ∀ r ∈ loaded.rates, r ∈ result.rates ∨ r.Accepted lib ∧ r.suspect = false := by
  intro rows
  induction rows with
  | nil =>
    intro result
    exact ⟨by simp, fun r hr => .inl hr⟩
  | cons row rows ih =>
    intro result
    obtain ⟨hlines, hrates⟩ := ih (loadFxRow lib result row.2 (get row.1))
    rw [List.foldl_cons]
    cases hrow : parseFxRow lib row.2 (get row.1) with
    | error detail =>
      have hload : loadFxRow lib result row.2 (get row.1) =
          { result with errors := result.errors ++ [⟨row.2, detail⟩] } := by
        rw [loadFxRow, hrow]
      rw [hload] at hlines hrates ⊢
      constructor
      · apply hlines.trans
        simp
      · exact hrates
    | ok rate =>
      obtain ⟨haccepted, hline, hclean⟩ := parseFxRow_accepted hrow
      have hload : loadFxRow lib result row.2 (get row.1) =
          { result with rates := result.rates ++ [rate] } := by
        rw [loadFxRow, hrow]
      rw [hload] at hlines hrates ⊢
      constructor
      · apply hlines.trans
        rw [List.map_append, List.map_singleton, hline, List.map_cons, List.append_assoc,
          List.append_assoc, List.append_assoc]
        apply List.Perm.append_left
        exact (@List.perm_middle _ _ (result.errors.map (·.lineNo)) _).symm
      · intro r hr
        rcases hrates r hr with hold | hnew
        · rcases List.mem_append.mp hold with hold | hlast
          · exact .inl hold
          · rw [List.mem_singleton.mp hlast]
            exact .inr ⟨haccepted, hclean⟩
        · exact .inr hnew

/-- The lines that became rates and those that became errors are the lines of the rows. -/
theorem loadFxRows_lines (fields : List String) (rows : List (List String)) :
    ((loadFxRows lib fields rows).rates.map (·.lineNo) ++
        (loadFxRows lib fields rows).errors.map (·.lineNo)).Perm
      (List.range' 2 (rows.filter (· ≠ [])).length) := by
  have hlines := (@foldl_loadFxRow lib (fieldOf fields)
    ((rows.filter (· ≠ [])).zipIdx 2) {}).1
  rw [List.zipIdx_map_snd] at hlines
  exact hlines

theorem loadFxRows_accepted {fields : List String} {rows : List (List String)} {r : ParsedFxRate}
    (h : r ∈ (loadFxRows lib fields rows).rates) : r.Accepted lib ∧ r.suspect = false := by
  have hrates := (@foldl_loadFxRow lib (fieldOf fields)
    ((rows.filter (· ≠ [])).zipIdx 2) {}).2
  exact (hrates r h).resolve_left List.not_mem_nil

end

/-! ## Rates are marked and nothing else -/

section

variable {outlierPercent : Rat} {rates : List ParsedFxRate} {r : ParsedFxRate}

/-- A mark changes nothing but the mark. -/
theorem flagOutlier_same (outlierPercent : Rat) (rates : List ParsedFxRate) (r : ParsedFxRate) :
    ∃ suspect reason, flagOutlier outlierPercent rates r =
      { r with suspect := suspect, suspectReason := reason } := by
  unfold flagOutlier
  split
  · exact ⟨r.suspect, r.suspectReason, rfl⟩
  · dsimp only
    split
    · exact ⟨_, _, rfl⟩
    · exact ⟨r.suspect, r.suspectReason, rfl⟩

theorem map_flagOutliers {β : Type} {column : ParsedFxRate → β}
    (h : ∀ (r : ParsedFxRate) (suspect : Bool) (reason : Option SuspectReason),
      column { r with suspect := suspect, suspectReason := reason } = column r) :
    (flagOutliers outlierPercent rates).map column = rates.map column := by
  rw [flagOutliers, List.map_map]
  apply List.map_congr_left
  intro r _
  obtain ⟨suspect, reason, hsame⟩ := flagOutlier_same outlierPercent rates r
  show column (flagOutlier outlierPercent rates r) = column r
  rw [hsame, h]

/-- A series in terms of what a mark does not change. -/
theorem seriesRates_eq : seriesRates rates r =
    ((rates.map fun other => (other.currency, other.source, other.rateInr)).filter
      fun row => row.1 = r.currency ∧ row.2.1 = r.source).map (·.2.2) := by
  rw [List.filter_map, List.map_map]
  rfl

theorem seriesRates_flagOutliers :
    seriesRates (flagOutliers outlierPercent rates) r = seriesRates rates r := by
  rw [seriesRates_eq, seriesRates_eq, map_flagOutliers fun _ _ _ => rfl]

/-- A marked rate was read, and is too far from the median of its series. -/
theorem mem_flagOutliers (h : r ∈ flagOutliers outlierPercent rates)
    (hclean : ∀ other ∈ rates, other.suspect = false) :
    ∃ other ∈ rates, seriesRates rates other = seriesRates rates r ∧
      other.rateInr = r.rateInr ∧
      (r.suspect = true ↔ ∃ mid, fileMedian rates other = some mid ∧
        outlierPercent < fxDeviation other.rateInr mid) := by
  obtain ⟨other, hother, rfl⟩ := List.mem_map.mp h
  obtain ⟨suspect, reason, hsame⟩ := flagOutlier_same outlierPercent rates other
  refine ⟨other, hother, by rw [hsame]; rfl, by rw [hsame], ?_⟩
  unfold flagOutlier
  cases fileMedian rates other with
  | none => simp [hclean other hother]
  | some mid =>
    by_cases hfar : outlierPercent < fxDeviation other.rateInr mid
    · simp [hfar]
    · simp [hfar, hclean other hother]

end

/-! ## Whole files -/

section

variable {lib : FxLibrary} {outlierPercent : Rat} {text : String} {result : FxLoadResult}

/-- A file that is read is a header and rows, without an error of the reader. -/
theorem parseFxCsv_eq_ok (h : parseFxCsv lib outlierPercent text = .ok result) :
    ∃ header rows,
      Csv.readRowsFrom ',' {} (bufferLinesFrom [] text.toList) = (header :: rows, none) ∧
      result = { loadFxRows lib (fxFields lib header) rows with
        rates := flagOutliers outlierPercent (loadFxRows lib (fxFields lib header) rows).rates } := by
  unfold parseFxCsv at h
  split at h
  · cases h
  · cases h
  · rename_i header rows error hread
    dsimp only at h
    split at h
    · cases h
    · split at h
      · cases h
      · cases h
        exact ⟨header, rows, hread, rfl⟩

/-- **The law of files.** Every row after the header that is not empty becomes one rate or one
error, under its own line. -/
theorem parseFxCsv_lines (h : parseFxCsv lib outlierPercent text = .ok result) :
    ∃ header rows,
      Csv.readRowsFrom ',' {} (bufferLinesFrom [] text.toList) = (header :: rows, none) ∧
      (result.rates.map (·.lineNo) ++ result.errors.map (·.lineNo)).Perm
        (List.range' 2 (rows.filter (· ≠ [])).length) ∧
      ∀ r ∈ result.rates, r.Accepted lib := by
  obtain ⟨header, rows, hread, rfl⟩ := parseFxCsv_eq_ok h
  refine ⟨header, rows, hread, ?_, ?_⟩
  · rw [map_flagOutliers fun _ _ _ => rfl]
    exact loadFxRows_lines _ _
  · intro r hr
    obtain ⟨other, hother, rfl⟩ := List.mem_map.mp hr
    obtain ⟨suspect, reason, hsame⟩ := flagOutlier_same outlierPercent
      (loadFxRows lib (fxFields lib header) rows).rates other
    obtain ⟨haccepted, -⟩ := loadFxRows_accepted hother
    rw [hsame]
    exact ⟨haccepted.pos, haccepted.atMost, haccepted.length, haccepted.letters⟩

end

end Recon
