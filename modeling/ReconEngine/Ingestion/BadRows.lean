import ReconEngine.Ingestion.Balances
import ReconEngine.Ingestion.Csv

/-!
# Rows that cannot be read

One bad row should not abort a file: `check_statement` counts a row that it cannot read, and
`normalise` refuses it with the one error that its callers catch. Both read the amount with
`Decimal`, and that accepts more than an amount: `NaN`, infinities, numbers of any size and sign.

**The law** (`badRows_contained_iff`): the check returns exactly when no amount of a known currency
is such a text, and a row that a parser accepted is normalised or refused exactly when neither its
amount is one nor one of its dates lies beyond the calendar in the zone of the bank. Only the
failures of four functions are caught, and these come from none of them or under another type.

**What it does not establish.** What a text is read as: dates, decimals and the letters of other
scripts are the library's. That the caller catches nothing else is the caller's code
(`Ingestion.Pipeline`); an error that is not contained ends the upload.
-/

set_option autoImplicit false

namespace Recon

/-! ## What amounts can be read as -/

namespace DecimalText

/-- No number of minor units within the 28 digits of the context. -/
def NoMinorUnits (exponent : Nat) : DecimalText → Prop
  | .invalid => False
  | .nan => True
  | .signalingNan => True
  | .infinite => True
  | .finite value => quantiseLimit ≤ |halfEven (value * 10 ^ exponent)|

/-- A number that the context cannot scale. -/
def Unscalable (exponent : Nat) : DecimalText → Prop
  | .invalid => False
  | .nan => True
  | .signalingNan => True
  | .infinite => True
  | .finite value => overflows (contextRound (value * 10 ^ exponent)) = true

end DecimalText

section

variable (lib : TextLibrary)

/-! ## The balance check -/

/-- The amount of a row is a text that `_to_minor` raises for. -/
def Unsummable (statementCurrency decimalSeparator : String) (row : ParsedRow) : Prop :=
  ∃ text exponent, nonBlank (row.mapped.lookup "amount") = some text ∧
    currencyExponent (rowCurrency row statementCurrency) lib.upper = some exponent ∧
    (lib.decimal (replaceText (strip text) decimalSeparator ".")).Unscalable exponent

variable {lib}

/-- An amount can be read unless it is one of those texts. -/
theorem toMinor_ok_iff {amountRaw : Option String} {currency decimalSeparator : String} :
    (∃ amount, toMinor lib amountRaw currency decimalSeparator = .ok amount) ↔
      ¬ ∃ text exponent, nonBlank amountRaw = some text ∧
        currencyExponent currency lib.upper = some exponent ∧
        (lib.decimal (replaceText (strip text) decimalSeparator ".")).Unscalable exponent := by
  unfold toMinor
  cases nonBlank amountRaw with
  | none => simp
  | some text =>
    simp only [Option.some.injEq, exists_and_left, exists_eq_left']
    generalize lib.decimal (replaceText (strip text) decimalSeparator ".") = reading
    cases reading with
    | invalid => simp [DecimalText.Unscalable]
    | nan => cases currencyExponent currency lib.upper <;> simp [DecimalText.Unscalable]
    | signalingNan => cases currencyExponent currency lib.upper <;> simp [DecimalText.Unscalable]
    | infinite => cases currencyExponent currency lib.upper <;> simp [DecimalText.Unscalable]
    | finite value =>
      cases currencyExponent currency lib.upper with
      | none => simp
      | some exponent =>
        by_cases h : overflows (contextRound (value * 10 ^ exponent)) = true
        · simp [DecimalText.Unscalable, h]
        · simp [DecimalText.Unscalable, h]

theorem rowEntry_ok_iff {statementCurrency decimalSeparator : String} {row : ParsedRow} :
    (∃ entry, rowEntry lib statementCurrency decimalSeparator row = .ok entry) ↔
      ¬ Unsummable lib statementCurrency decimalSeparator row := by
  rw [Unsummable, ← toMinor_ok_iff, rowEntry]
  cases toMinor lib (row.mapped.lookup "amount") (rowCurrency row statementCurrency)
      decimalSeparator with
  | error e => simp [bind, Except.bind]
  | ok amount =>
    simp only [bind, Except.bind, Except.ok.injEq, exists_eq', iff_true]
    split
    · exact ⟨_, rfl⟩
    · exact ⟨_, rfl⟩

/-- The check returns, with every row counted, exactly when no row is unsummable. -/
theorem checkStatement_returns_iff {balances : StatementBalances} {rows : List ParsedRow}
    {decimalSeparator : String} :
    (∃ check, checkStatement lib balances rows decimalSeparator = .ok check ∧
      check.entryCount + check.unparseableEntries = rows.length) ↔
      ∀ row ∈ rows, ¬ Unsummable lib balances.currency decimalSeparator row := by
  constructor
  · intro h row hrow
    obtain ⟨check, hcheck, -⟩ := h
    obtain ⟨entries, hentries, -⟩ := checkStatement_ok_iff.mp hcheck
    exact rowEntry_ok_iff.mp (Traversal.exists_ok_of_mapM hentries row hrow)
  · intro h
    obtain ⟨entries, hentries⟩ :=
      Traversal.exists_mapM_ok fun row hrow => rowEntry_ok_iff.mpr (h row hrow)
    have hcheck := checkStatement_ok_iff.mpr ⟨entries, hentries, rfl⟩
    exact ⟨_, hcheck, checkStatement_counts hcheck⟩

/-! ## Failures that are not caught -/

/-- The step ends in an error that is no `NormalisationError`. -/
def Escapes {α : Type} (step : Normalised α) : Prop := ∃ e, step = .error (.raised e)

/-- The step returns, or ends in a `NormalisationError`. -/
def Contained {α : Type} (step : Normalised α) : Prop :=
  (∃ a, step = .ok a) ∨ ∃ message, step = .error (.rejected message)

/-- A step is contained when it returns or refuses. -/
theorem contained_iff {α : Type} {step : Normalised α} : Contained step ↔ ¬ Escapes step := by
  cases step with
  | ok a => simp [Contained, Escapes]
  | error failure => cases failure <;> simp [Contained, Escapes]

/-- A failure escapes from one of two steps. -/
theorem escapes_bind {α β : Type} {step : Normalised α} {next : α → Normalised β} :
    Escapes (step >>= next) ↔ Escapes step ∨ ∃ a, step = .ok a ∧ Escapes (next a) := by
  cases step <;> simp [Escapes, bind, Except.bind]

@[simp] theorem not_escapes_ok {α : Type} (a : α) : ¬ Escapes (.ok a : Normalised α) := by simp [Escapes]

@[simp] theorem not_escapes_pure {α : Type} (a : α) : ¬ Escapes (pure a : Normalised α) := not_escapes_ok a

@[simp] theorem not_escapes_rejected {α : Type} (message : String) :
    ¬ Escapes (.error (.rejected message) : Normalised α) := by simp [Escapes]

@[simp] theorem escapes_raised {α : Type} (e : ReconError) :
    Escapes (.error (.raised e) : Normalised α) := ⟨e, rfl⟩

theorem field_of_lookup {row : ParsedRow} {key text : String}
    (h : row.mapped.lookup key = some text) : row.field key = .ok text := by
  simp [ParsedRow.field, h]

/-! ## Dates -/

variable (lib)

/-- The text is a date whose local time has no instant in the zone. -/
def NoInstant (dateFormat timezone text : String) : Prop :=
  ∃ zone parsed, lib.zoneInfo timezone = some zone ∧
    lib.strptime (strip text) dateFormat = some parsed ∧
    zone ⟨parsed.date, if formatHasTime dateFormat then parsed.time else 0⟩ = none

/-- The text is a date whose local time has an instant in the zone. -/
def HasInstant (dateFormat timezone text : String) : Prop :=
  ∃ zone parsed utc, lib.zoneInfo timezone = some zone ∧
    lib.strptime (strip text) dateFormat = some parsed ∧
    zone ⟨parsed.date, if formatHasTime dateFormat then parsed.time else 0⟩ = some utc

variable {lib}

/-- A date escapes where its zone has no such moment. -/
theorem escapes_normaliseTimestamp {text dateFormat timezone : String} :
    Escapes (normaliseTimestamp lib text dateFormat timezone) ↔
      NoInstant lib dateFormat timezone text := by
  unfold normaliseTimestamp NoInstant
  cases lib.zoneInfo timezone with
  | none => simp
  | some zone =>
    cases lib.strptime (strip text) dateFormat with
    | none => simp
    | some parsed =>
      cases hutc : zone ⟨parsed.date, if formatHasTime dateFormat then parsed.time else 0⟩ <;>
        simp [hutc]

theorem normaliseTimestamp_ok_iff {text dateFormat timezone : String} :
    (∃ timestamp, normaliseTimestamp lib text dateFormat timezone = .ok timestamp) ↔
      HasInstant lib dateFormat timezone text := by
  unfold normaliseTimestamp HasInstant
  cases lib.zoneInfo timezone with
  | none => simp
  | some zone =>
    cases lib.strptime (strip text) dateFormat with
    | none => simp
    | some parsed =>
      cases hutc : zone ⟨parsed.date, if formatHasTime dateFormat then parsed.time else 0⟩ <;>
        simp [hutc]

/-! ## Marks, currencies and amounts -/

/-- A mark that `normalise_direction` knows. -/
def IsMark (lib : TextLibrary) (text : String) : Prop :=
  lib.upper (strip text) ∈
    creditMarks ++ debitMarks ++ reversalCreditMarks ++ reversalDebitMarks

/-- A mark never escapes: what is not in the table is refused. -/
theorem not_escapes_normaliseDirection (text : String) : ¬ Escapes (normaliseDirection lib text) := by
  unfold normaliseDirection
  dsimp only
  split_ifs <;> simp

theorem normaliseDirection_ok_iff {text : String} :
    (∃ direction, normaliseDirection lib text = .ok direction) ↔ IsMark lib text := by
  unfold normaliseDirection IsMark
  dsimp only
  split_ifs <;> simp_all

theorem not_escapes_normaliseCurrency (text : String) : ¬ Escapes (normaliseCurrency lib text) := by
  unfold normaliseCurrency
  dsimp only
  split_ifs <;> simp

theorem not_escapes_resolveCurrency (text : Option String) (default : String) :
    ¬ Escapes (resolveCurrency lib text default) := by
  unfold resolveCurrency
  split
  · split_ifs <;> exact not_escapes_normaliseCurrency _
  · exact not_escapes_normaliseCurrency _

theorem exponent_of_normaliseCurrency {text currency : String}
    (h : normaliseCurrency lib text = .ok currency) :
    ∃ exponent, currencyExponent currency lib.upper = some exponent := by
  unfold normaliseCurrency at h
  dsimp only at h
  split_ifs at h with hform hknown
  cases h
  exact Option.ne_none_iff_exists'.mp (by simpa using hknown)

/-- A currency that was resolved has minor units. -/
theorem exponent_of_resolveCurrency {text : Option String} {default currency : String}
    (h : resolveCurrency lib text default = .ok currency) :
    ∃ exponent, currencyExponent currency lib.upper = some exponent := by
  unfold resolveCurrency at h
  split at h
  · split_ifs at h <;> exact exponent_of_normaliseCurrency h
  · exact exponent_of_normaliseCurrency h

variable (lib)

/-- What the text of an amount is read as, without its separators. -/
def amountReading (text decimalSeparator : String) (thousandsSeparator : Option String) :
    DecimalText :=
  let cleaned := strip text
  let cleaned := match thousandsSeparator with
    | some separator => if separator = "" then cleaned else replaceText cleaned separator ""
    | none => cleaned
  lib.decimal (if decimalSeparator = "." then cleaned else replaceText cleaned decimalSeparator ".")

variable {lib}

theorem normaliseAmount_eq {text currency decimalSeparator : String}
    {thousandsSeparator : Option String} {exponent : Nat}
    (h : currencyExponent currency lib.upper = some exponent) :
    normaliseAmount lib text currency decimalSeparator thousandsSeparator =
      match amountReading lib text decimalSeparator thousandsSeparator with
      | .invalid =>
        .error (.rejected (pythonRepr text ++ " could not be parsed as a decimal amount"))
      | .nan => .error (.raised (.valueError "cannot convert NaN to integer"))
      | .signalingNan => .error (.raised (.arithmetic "InvalidOperation"))
      | .infinite => .error (.raised (.arithmetic "InvalidOperation"))
      | .finite value =>
        if quantiseLimit ≤ |halfEven (value * 10 ^ exponent)| then
          .error (.raised (.arithmetic "InvalidOperation"))
        else .ok (halfEven (value * 10 ^ exponent)) := by
  unfold normaliseAmount amountReading
  dsimp only
  rw [h]
  generalize lib.decimal _ = reading
  cases reading <;> rfl

/-- An amount escapes where the context cannot scale or cut it. -/
theorem escapes_normaliseAmount {text currency decimalSeparator : String}
    {thousandsSeparator : Option String} {exponent : Nat}
    (h : currencyExponent currency lib.upper = some exponent) :
    Escapes (normaliseAmount lib text currency decimalSeparator thousandsSeparator) ↔
      (amountReading lib text decimalSeparator thousandsSeparator).NoMinorUnits exponent := by
  rw [normaliseAmount_eq h]
  cases amountReading lib text decimalSeparator thousandsSeparator with
  | finite value =>
    by_cases hlimit : quantiseLimit ≤ |halfEven (value * 10 ^ exponent)|
    · simp [DecimalText.NoMinorUnits, hlimit]
    · simp [DecimalText.NoMinorUnits, hlimit]
  | _ => simp [DecimalText.NoMinorUnits]

theorem normaliseAmount_ok_iff {text currency decimalSeparator : String}
    {thousandsSeparator : Option String} {exponent : Nat} {minorUnits : Int}
    (h : currencyExponent currency lib.upper = some exponent) :
    normaliseAmount lib text currency decimalSeparator thousandsSeparator = .ok minorUnits ↔
      ∃ value, amountReading lib text decimalSeparator thousandsSeparator = .finite value ∧
        halfEven (value * 10 ^ exponent) = minorUnits ∧ |minorUnits| < quantiseLimit := by
  rw [normaliseAmount_eq h]
  cases amountReading lib text decimalSeparator thousandsSeparator with
  | finite value =>
    by_cases hlimit : quantiseLimit ≤ |halfEven (value * 10 ^ exponent)|
    · simp only [if_pos hlimit]
      constructor
      · intro h
        nomatch h
      · intro h
        obtain ⟨_, heq, rfl, hlt⟩ := h
        cases heq
        exact absurd hlimit (not_le.mpr hlt)
    · simp only [if_neg hlimit]
      constructor
      · intro h
        cases h
        exact ⟨value, rfl, rfl, not_le.mp hlimit⟩
      · intro h
        obtain ⟨_, heq, rfl, -⟩ := h
        cases heq
        rfl
  | _ => simp

theorem not_escapes_dateFormatFor (formatType : SourceFormat) (config : BankFormats) :
    ¬ Escapes (dateFormatFor formatType config) := by
  cases formatType with
  | csv =>
    rw [dateFormatFor]
    split <;> simp
  | _ => simp [dateFormatFor]

theorem not_escapes_amountSeparatorsFor (formatType : SourceFormat) (config : BankFormats) :
    ¬ Escapes (amountSeparatorsFor formatType config) := by
  cases formatType with
  | camt053 => simp [amountSeparatorsFor]
  | _ =>
    rw [amountSeparatorsFor]
    split <;> simp

theorem escapes_checkAmount {amountMinor : Int} : Escapes (checkAmount amountMinor) ↔ amountMinor < 0 := by
  unfold checkAmount
  split_ifs with h <;> simp [h]

/-! ## Rows that are not contained -/

/-- The fields that the pipeline takes off every row. -/
def neededFields : List String := ["txn_date", "direction", "amount", "reference"]

def HasFields (row : ParsedRow) : Prop :=
  ∀ key ∈ neededFields, ∃ text, row.mapped.lookup key = some text

variable (lib) (config : BankFormats) (formatType : SourceFormat) (row : ParsedRow)

/-- The date, the mark and the currency of a row are read, and then its amount as this. -/
structure ReadsAmount (dateFormat : String) (exponent : Nat) (reading : DecimalText) : Prop where
  dated : dateFormatFor formatType config = .ok dateFormat
  date : ∃ text, row.mapped.lookup "txn_date" = some text ∧
    HasInstant lib dateFormat config.timezone text
  mark : ∃ text, row.mapped.lookup "direction" = some text ∧ IsMark lib text
  amount : ∃ currency separators text,
    resolveCurrency lib (row.mapped.lookup "currency") config.currencyDefault = .ok currency ∧
      currencyExponent currency lib.upper = some exponent ∧
      amountSeparatorsFor formatType config = .ok separators ∧
      row.mapped.lookup "amount" = some text ∧
      amountReading lib text separators.1 separators.2 = reading

/-- What nobody catches: a date without an instant, an amount without minor units, a settlement date
without an instant and an amount below zero, each when everything before it was read. -/
inductive Uncaught : Prop where
  | date {dateFormat text : String} : dateFormatFor formatType config = .ok dateFormat →
    row.mapped.lookup "txn_date" = some text → NoInstant lib dateFormat config.timezone text → Uncaught
  | amount {dateFormat : String} {exponent : Nat} {reading : DecimalText} :
    ReadsAmount lib config formatType row dateFormat exponent reading →
    reading.NoMinorUnits exponent → Uncaught
  | settlement {dateFormat text : String} {exponent : Nat} {value : Rat} :
    ReadsAmount lib config formatType row dateFormat exponent (.finite value) →
    |halfEven (value * 10 ^ exponent)| < quantiseLimit →
    nonBlank (row.mapped.lookup "settlement_date") = some text →
    NoInstant lib dateFormat config.timezone text → Uncaught
  | sign {dateFormat : String} {exponent : Nat} {value : Rat} :
    ReadsAmount lib config formatType row dateFormat exponent (.finite value) →
    |halfEven (value * 10 ^ exponent)| < quantiseLimit →
    (∀ text, nonBlank (row.mapped.lookup "settlement_date") = some text →
      HasInstant lib dateFormat config.timezone text) →
    halfEven (value * 10 ^ exponent) < 0 → Uncaught

variable {lib config formatType row}

/-- The settlement date of a row that has one. -/
def settlementStep (lib : TextLibrary) (config : BankFormats) (dateFormat : String)
    (text : Option String) : Normalised (Option Date) :=
  match text with
  | some text =>
    if text = "" then pure none
    else (some ·.localDate) <$> normaliseTimestamp lib text dateFormat config.timezone
  | none => pure none

theorem settlementStep_eq {dateFormat : String} {text : Option String} :
    settlementStep lib config dateFormat text =
      match nonBlank text with
      | some text => (some ·.localDate) <$> normaliseTimestamp lib text dateFormat config.timezone
      | none => pure none := by
  cases text with
  | none => rfl
  | some text =>
    by_cases h : text = ""
    · rw [nonBlank, Option.filter_some, settlementStep, if_pos h, if_neg (by simp [h])]
    · rw [nonBlank, Option.filter_some, settlementStep, if_neg h, if_pos (by simp [h])]

theorem escapes_map {α β : Type} {step : Normalised α} {f : α → β} :
    Escapes (f <$> step) ↔ Escapes step := by
  cases step <;> simp [Escapes, Functor.map, Except.map]

theorem escapes_settlementStep {dateFormat : String} {text : Option String} :
    Escapes (settlementStep lib config dateFormat text) ↔
      ∃ date, nonBlank text = some date ∧ NoInstant lib dateFormat config.timezone date := by
  rw [settlementStep_eq]
  cases nonBlank text with
  | none => simp
  | some date => simp [escapes_map, escapes_normaliseTimestamp]

theorem settlementStep_ok_iff {dateFormat : String} {text : Option String} :
    (∃ date, settlementStep lib config dateFormat text = .ok date) ↔
      ∀ date, nonBlank text = some date → HasInstant lib dateFormat config.timezone date := by
  rw [settlementStep_eq]
  cases nonBlank text with
  | none => simp [pure, Except.pure]
  | some date =>
    simp only [Option.some.injEq, forall_eq', ← normaliseTimestamp_ok_iff]
    cases normaliseTimestamp lib date dateFormat config.timezone <;> simp [Functor.map, Except.map]

/-- The steps of the pipeline, with whatever they make of their results. -/
theorem normaliseValidRow_eq (lib : TextLibrary) (row : ParsedRow) (config : BankFormats)
    (formatType : SourceFormat) (source : Source) :
    ∃ result : NormalisedTimestamp → Direction × Bool → String → Int → String → Option Date →
        CanonicalTransaction,
      normaliseValidRow lib row config formatType source = do
        let dateFormat ← dateFormatFor formatType config
        let date ← row.field "txn_date"
        let timestamp ← normaliseTimestamp lib date dateFormat config.timezone
        let mark ← row.field "direction"
        let direction ← normaliseDirection lib mark
        let currency ← resolveCurrency lib (row.mapped.lookup "currency") config.currencyDefault
        let separators ← amountSeparatorsFor formatType config
        let amount ← row.field "amount"
        let amountMinor ← normaliseAmount lib amount currency separators.1 separators.2
        let reference ← row.field "reference"
        let settlementDate ←
          settlementStep lib config dateFormat (row.mapped.lookup "settlement_date")
        checkAmount amountMinor
        return result timestamp direction currency amountMinor reference settlementDate := by
  unfold normaliseValidRow
  cases row.mapped.lookup "settlement_date" with
  | none => exact ⟨_, rfl⟩
  | some text =>
    by_cases h : text = ""
    · simp only [settlementStep, if_pos h]
      exact ⟨_, rfl⟩
    · simp only [settlementStep, if_neg h]
      exact ⟨_, rfl⟩

/-- The results of the steps up to the amount. -/
structure AmountSteps (lib : TextLibrary) (config : BankFormats) (formatType : SourceFormat)
    (row : ParsedRow) (dateFormat : String) (exponent : Nat) (reading : DecimalText)
    (dateText mark amountText : String) (timestamp : NormalisedTimestamp)
    (direction : Direction × Bool) (currency : String) (separators : String × Option String) :
    Prop where
  dated : normaliseTimestamp lib dateText dateFormat config.timezone = .ok timestamp
  marked : normaliseDirection lib mark = .ok direction
  resolved : resolveCurrency lib (row.mapped.lookup "currency") config.currencyDefault = .ok currency
  scaled : currencyExponent currency lib.upper = some exponent
  separated : amountSeparatorsFor formatType config = .ok separators
  read : amountReading lib amountText separators.1 separators.2 = reading

theorem ReadsAmount.steps {dateFormat : String} {exponent : Nat} {reading : DecimalText}
    {dateText mark amountText : String}
    (h : ReadsAmount lib config formatType row dateFormat exponent reading)
    (hdate : row.mapped.lookup "txn_date" = some dateText)
    (hmark : row.mapped.lookup "direction" = some mark)
    (hamount : row.mapped.lookup "amount" = some amountText) :
    ∃ timestamp direction currency separators,
      AmountSteps lib config formatType row dateFormat exponent reading dateText mark amountText
        timestamp direction currency separators := by
  obtain ⟨text, htext, hinstant⟩ := h.date
  cases hdate.symm.trans htext
  obtain ⟨text, htext, hknown⟩ := h.mark
  cases hmark.symm.trans htext
  obtain ⟨currency, separators, text, hcurrency, hexponent, hseparators, htext, hreading⟩ := h.amount
  cases hamount.symm.trans htext
  obtain ⟨timestamp, htimestamp⟩ := normaliseTimestamp_ok_iff.mpr hinstant
  obtain ⟨direction, hdirection⟩ := normaliseDirection_ok_iff.mpr hknown
  exact ⟨timestamp, direction, currency, separators, htimestamp, hdirection, hcurrency, hexponent,
    hseparators, hreading⟩

theorem escapes_normaliseValidRow (h : HasFields row) (source : Source) :
    Escapes (normaliseValidRow lib row config formatType source) ↔
      Uncaught lib config formatType row := by
  obtain ⟨dateText, hdate⟩ := h "txn_date" (by simp [neededFields])
  obtain ⟨mark, hmark⟩ := h "direction" (by simp [neededFields])
  obtain ⟨amountText, hamount⟩ := h "amount" (by simp [neededFields])
  obtain ⟨reference, hreference⟩ := h "reference" (by simp [neededFields])
  obtain ⟨result, heq⟩ := normaliseValidRow_eq lib row config formatType source
  simp only [heq, escapes_bind, field_of_lookup hdate, field_of_lookup hmark,
    field_of_lookup hamount, field_of_lookup hreference, not_escapes_ok, not_escapes_dateFormatFor,
    not_escapes_normaliseDirection, not_escapes_resolveCurrency, not_escapes_amountSeparatorsFor,
    escapes_normaliseTimestamp, escapes_checkAmount, not_escapes_pure, false_or, or_false, and_false,
    exists_false, Except.ok.injEq, exists_eq_left', escapes_settlementStep]
  constructor
  · rintro ⟨dateFormat, hdated, hno | ⟨timestamp, htimestamp, direction, hdirection, currency,
      hcurrency, separators, hseparators, hrest⟩⟩
    · exact .date hdated hdate hno
    obtain ⟨exponent, hexponent⟩ := exponent_of_resolveCurrency hcurrency
    have hreads : ReadsAmount lib config formatType row dateFormat exponent
        (amountReading lib amountText separators.1 separators.2) :=
      { dated := hdated
        date := ⟨dateText, hdate, normaliseTimestamp_ok_iff.mp ⟨timestamp, htimestamp⟩⟩
        mark := ⟨mark, hmark, normaliseDirection_ok_iff.mp ⟨direction, hdirection⟩⟩
        amount := ⟨currency, separators, amountText, hcurrency, hexponent, hseparators, hamount,
          rfl⟩ }
    obtain hescapes | ⟨minorUnits, hminor, hrest⟩ := hrest
    · exact .amount hreads ((escapes_normaliseAmount hexponent).mp hescapes)
    obtain ⟨value, hvalue, rfl, hlimit⟩ := (normaliseAmount_ok_iff hexponent).mp hminor
    rw [hvalue] at hreads
    obtain ⟨text, htext, hno⟩ | ⟨settlement, hsettlement, hnegative⟩ := hrest
    · exact .settlement hreads hlimit htext hno
    · exact .sign hreads hlimit (settlementStep_ok_iff.mp ⟨settlement, hsettlement⟩) hnegative
  · intro huncaught
    cases huncaught with
    | @date dateFormat text hdated htext hno =>
      cases hdate.symm.trans htext
      exact ⟨dateFormat, hdated, Or.inl hno⟩
    | @amount dateFormat exponent reading hreads hnone =>
      obtain ⟨timestamp, direction, currency, separators, hsteps⟩ := hreads.steps hdate hmark hamount
      refine ⟨dateFormat, hreads.dated, Or.inr ⟨timestamp, hsteps.dated, direction,
        hsteps.marked, currency, hsteps.resolved, separators, hsteps.separated, Or.inl ?_⟩⟩
      rw [escapes_normaliseAmount hsteps.scaled, hsteps.read]
      exact hnone
    | @settlement dateFormat text exponent value hreads hlimit htext hno =>
      obtain ⟨timestamp, direction, currency, separators, hsteps⟩ := hreads.steps hdate hmark hamount
      have hminor := (normaliseAmount_ok_iff hsteps.scaled).mpr ⟨value, hsteps.read, rfl, hlimit⟩
      exact ⟨dateFormat, hreads.dated, Or.inr ⟨timestamp, hsteps.dated, direction,
        hsteps.marked, currency, hsteps.resolved, separators, hsteps.separated,
        Or.inr ⟨_, hminor, Or.inl ⟨text, htext, hno⟩⟩⟩⟩
    | @sign dateFormat exponent value hreads hlimit hsettlement hnegative =>
      obtain ⟨timestamp, direction, currency, separators, hsteps⟩ := hreads.steps hdate hmark hamount
      have hminor := (normaliseAmount_ok_iff hsteps.scaled).mpr ⟨value, hsteps.read, rfl, hlimit⟩
      obtain ⟨settlement, hdone⟩ := settlementStep_ok_iff.mpr hsettlement
      exact ⟨dateFormat, hreads.dated, Or.inr ⟨timestamp, hsteps.dated, direction,
        hsteps.marked, currency, hsteps.resolved, separators, hsteps.separated,
        Or.inr ⟨_, hminor, Or.inr ⟨settlement, hdone, hnegative⟩⟩⟩⟩

/-! ## Rows of a parser -/

/-- A row that the parser of a format yields for a file of the bank. -/
inductive ParserRow (lib : TextLibrary) (config : BankFormats) : SourceFormat → ParsedRow → Prop where
  | csv {csv : Csv.Config} {text : String} {rows : List ParsedRow} {error : Option String}
    {row : ParsedRow} : config.csv = some csv.toCsvFormat →
    Csv.parse lib csv text = .ok (rows, error) → row ∈ rows → ParserRow lib config .csv row
  | mt940 {text : String} {header : Mt940.StatementHeader} {rows : List ParsedRow} {row : ParsedRow} :
    Mt940.parseWithHeader lib text config = .ok (header, rows) → row ∈ rows →
    ParserRow lib config .mt940 row
  | camt053 {document : Except String Camt053.Element} {header : Camt053.StatementHeader}
    {rows : List ParsedRow} {row : ParsedRow} :
    Camt053.parseWithHeader lib document = .ok (header, rows) → row ∈ rows →
    ParserRow lib config .camt053 row

theorem hasFields_csv {csv : Csv.Config} {header raw : List String} {lineNo : Nat}
    (h : (Csv.parseRow lib csv header raw lineNo).isValid = true) :
    HasFields (Csv.parseRow lib csv header raw lineNo) := by
  intro key hkey
  simp only [ParsedRow.isValid, List.isEmpty_iff, Csv.parseRow, List.append_eq_nil_iff,
    Csv.mappingErrors, List.map_eq_nil_iff, List.filter_eq_nil_iff] at h
  have hcolumn := h.1.1.2.1
  have hcore : key ∈ csv.columnMapping.map (·.1) := by
    apply csv.core
    simpa [Csv.requiredMappedFields, neededFields, or_comm, or_left_comm] using hkey
  obtain ⟨pair, hpair, rfl⟩ := List.mem_map.mp hcore
  have hpresent : ((Csv.rawFields header raw).lookup pair.2).isSome = true := by
    simpa using hcolumn pair hpair
  obtain ⟨value, hvalue⟩ := Option.isSome_iff_exists.mp hpresent
  have hmapped : (pair.1, value) ∈ Csv.mappedFields csv (Csv.rawFields header raw) :=
    List.mem_filterMap.mpr ⟨pair, hpair, by simp [hvalue]⟩
  apply Option.isSome_iff_exists.mp
  rw [Csv.parseRow, Option.isSome_iff_ne_none, ne_eq, List.lookup_eq_none_iff]
  intro hnone
  simpa using hnone _ hmapped

theorem hasFields_mt940 {field : Mt940.LexedField} {narration : List Char}
    {decimalSeparator : String}
    (h : (Mt940.buildRow lib decimalSeparator field narration).isValid = true) :
    HasFields (Mt940.buildRow lib decimalSeparator field narration) := by
  unfold Mt940.buildRow at h ⊢
  generalize Mt940.parseField61 field.content = parsed at h ⊢
  cases parsed with
  | none => simp [ParsedRow.isValid] at h
  | some parsed => simp [HasFields, neededFields, List.lookup_cons]

theorem extractRows_mt940 {decimalSeparator : String} {fields : List Mt940.LexedField} :
    ∀ row ∈ Mt940.extractRows lib decimalSeparator fields,
      ∃ field narration, row = Mt940.buildRow lib decimalSeparator field narration := by
  fun_induction Mt940.extractRows lib decimalSeparator fields with
  | case1 => simp
  | case2 field htag => simp
  | case3 field htag => simp
  | case4 field next rest htag ih => exact ih
  | case5 field next rest htag hnext ih => simpa using ih
  | case6 field next rest htag hnext ih => simpa using ih

theorem hasFields_camt053 (ntry : Camt053.Element) (index : Nat) :
    HasFields (Camt053.buildRow lib ntry index) := by
  simp [HasFields, neededFields, Camt053.buildRow, Camt053.mappedFields, List.lookup_cons]

/-- **What a parser marked valid has the fields that the pipeline needs.** -/
theorem ParserRow.hasFields (h : ParserRow lib config formatType row) (hvalid : row.isValid = true) :
    HasFields row := by
  cases h with
  | @csv csv text rows error row hconfig hparse hrow =>
    unfold Csv.parse at hparse
    split at hparse
    · nomatch hparse
    · nomatch hparse
    next header raws error' hread =>
      split_ifs at hparse
      cases hparse
      obtain ⟨raw, -, rfl⟩ := List.mem_map.mp hrow
      exact hasFields_csv hvalid
  | @mt940 text header rows row hparse hrow =>
    unfold Mt940.parseWithHeader at hparse
    cases hformat : config.mt940 with
    | none => simp [hformat] at hparse
    | some format =>
      cases hlex : Mt940.lex text.toList with
      | error message => simp [hformat, hlex] at hparse
      | ok fields =>
        simp only [hformat, hlex] at hparse
        cases hheader : Mt940.extractHeader fields with
        | error failure => simp [hheader, bind, Except.bind] at hparse
        | ok found =>
          simp only [hheader, bind, Except.bind, pure, Except.pure, Except.ok.injEq,
            Prod.mk.injEq] at hparse
          obtain ⟨-, rfl⟩ := hparse
          obtain ⟨field, narration, rfl⟩ := extractRows_mt940 row hrow
          exact hasFields_mt940 hvalid
  | @camt053 document header rows row hparse hrow =>
    cases document with
    | error message => nomatch hparse
    | ok root =>
      unfold Camt053.parseWithHeader at hparse
      dsimp only at hparse
      split_ifs at hparse
      cases hstmt : Camt053.find ["Stmt"] root with
      | none => simp [hstmt] at hparse
      | some stmt =>
        simp only [hstmt, Except.ok.injEq, Prod.mk.injEq] at hparse
        obtain ⟨-, rfl⟩ := hparse
        obtain ⟨entry, -, rfl⟩ := List.mem_map.mp hrow
        exact hasFields_camt053 entry.1 entry.2

theorem normalise_contained_iff (h : HasFields row) (hvalid : row.isValid = true) (source : Source) :
    Contained (normalise lib row config formatType source) ↔
      ¬ Uncaught lib config formatType row := by
  rw [contained_iff, ← escapes_normaliseValidRow h source, normalise, hvalid]
  rfl

/-! ## The law -/

/-- **A bad row is contained, except for amounts that `Decimal` reads and nobody checks, and dates
without an instant.** -/
theorem badRows_contained_iff (lib : TextLibrary) :
    (∀ (balances : StatementBalances) (rows : List ParsedRow) (decimalSeparator : String),
      (∃ check, checkStatement lib balances rows decimalSeparator = .ok check ∧
        check.entryCount + check.unparseableEntries = rows.length) ↔
        ∀ row ∈ rows, ¬ Unsummable lib balances.currency decimalSeparator row) ∧
    ∀ (config : BankFormats) (formatType : SourceFormat) (row : ParsedRow) (source : Source),
      ParserRow lib config formatType row → row.isValid = true →
        (Contained (normalise lib row config formatType source) ↔
          ¬ Uncaught lib config formatType row) := by
  constructor
  · intro balances rows decimalSeparator
    exact checkStatement_returns_iff
  · intro config formatType row source hrow hvalid
    exact normalise_contained_iff (hrow.hasFields hvalid) hvalid source

end

/-! ## An amount that is no number -/

/-- A library that knows one day, one zone and two amounts, and one capital beyond ASCII. -/
def paymentLibrary : TextLibrary where
  strptime text format :=
    if text = "2026-03-01" ∧ format = "%Y-%m-%d" then some ⟨739676, 0⟩ else none
  zoneInfo name :=
    if name = "UTC" then some fun t => some ((t.date - 719163) * 86400000000 + t.time) else none
  decimal text :=
    if text = "250.00" then .finite 250 else if text = "NaN" then .nan else .invalid
  upper text := String.ofList (text.toList.map fun c => if c = 'ı' then 'I' else c.toUpper)

def paymentBank : BankFormats where
  bankCode := "HDFC"
  timezone := "UTC"
  currencyDefault := "INR"
  supportedFormats := [.csv]
  csv := some Csv.plainConfig.toCsvFormat

/-- Payments whose amount is `NaN`, one with a mark that `upper` makes ASCII. -/
def notANumber : String :=
  "Reference,Date,Amount,Direction\nPAY42,2026-03-01,NaN,CR\nPAY43,2026-03-01,NaN,dbıt\n"

def notANumberRow : ParsedRow :=
  Csv.parseRow paymentLibrary Csv.plainConfig ["Reference", "Date", "Amount", "Direction"]
    ["PAY42", "2026-03-01", "NaN", "CR"] 2

def dotlessRow : ParsedRow :=
  Csv.parseRow paymentLibrary Csv.plainConfig ["Reference", "Date", "Amount", "Direction"]
    ["PAY43", "2026-03-01", "NaN", "dbıt"] 3

theorem notANumber_read : Csv.readRows ',' notANumber =
    ([["Reference", "Date", "Amount", "Direction"], ["PAY42", "2026-03-01", "NaN", "CR"],
      ["PAY43", "2026-03-01", "NaN", "dbıt"]], none) := by
  decide +kernel

/-- The parser accepts the rows. -/
theorem notANumber_parsed : ∀ row ∈ [notANumberRow, dotlessRow],
    ParserRow paymentLibrary paymentBank .csv row ∧ row.isValid = true := by
  have hread : Csv.readRows Csv.plainConfig.delimiter notANumber = _ := notANumber_read
  have hparse : Csv.parse paymentLibrary Csv.plainConfig notANumber =
      .ok ([notANumberRow, dotlessRow], none) := by
    rw [Csv.parse_accepted paymentLibrary hread (List.cons_ne_nil _ _) (by decide)]
    rfl
  have hvalid : ∀ row ∈ [notANumberRow, dotlessRow], row.isValid = true := by decide +kernel
  exact fun row hrow => ⟨.csv rfl hparse hrow, hvalid row hrow⟩

/-- Their dates, marks and currencies are read, and their amounts as no number. -/
theorem notANumber_uncaught : ∀ row ∈ [notANumberRow, dotlessRow],
    Uncaught paymentLibrary paymentBank .csv row := by
  have hfields : ∀ row ∈ [notANumberRow, dotlessRow],
      row.mapped.lookup "txn_date" = some "2026-03-01" ∧
      resolveCurrency paymentLibrary (row.mapped.lookup "currency") "INR" = .ok "INR" ∧
      row.mapped.lookup "amount" = some "NaN" := by decide +kernel
  intro row hrow
  obtain ⟨hdate, hcurrency, hamount⟩ := hfields row hrow
  have hmark : ∃ text, row.mapped.lookup "direction" = some text ∧ IsMark paymentLibrary text := by
    simp only [List.mem_cons, List.not_mem_nil, or_false] at hrow
    rcases hrow with rfl | rfl
    · exact ⟨"CR", by decide +kernel, by unfold IsMark; decide +kernel⟩
    · exact ⟨"dbıt", by decide +kernel, by unfold IsMark; decide +kernel⟩
  have hreads : ReadsAmount paymentLibrary paymentBank .csv row "%Y-%m-%d" 2 .nan :=
    { dated := rfl
      date := ⟨"2026-03-01", hdate, _, ⟨739676, 0⟩, _, rfl, by decide +kernel, rfl⟩
      mark := hmark
      amount := ⟨"INR", (".", none), "NaN", hcurrency, by decide +kernel, rfl, hamount,
        by decide +kernel⟩ }
  exact .amount hreads trivial

/-- It is no `NormalisationError` that the rows end in. -/
theorem badRows_contained_iff_notANumber : ∀ row ∈ [notANumberRow, dotlessRow],
    ¬ Contained (normalise paymentLibrary row paymentBank .csv .internal) := by
  intro row hrow hcontained
  obtain ⟨hparsed, hvalid⟩ := notANumber_parsed row hrow
  exact ((badRows_contained_iff paymentLibrary).2 paymentBank .csv row .internal hparsed
    hvalid).mp hcontained (notANumber_uncaught row hrow)

def openStatement : StatementBalances where
  statementRef := none
  account := none
  currency := "INR"
  openingMinor := 0
  closingMinor := 0
  openingDate := none
  closingDate := none

/-- One row with the amount `NaN` ends the check, and the pipeline in an error nobody catches. -/
theorem notANumber_escapes :
    (¬ ∀ (lib : TextLibrary) (balances : StatementBalances) (rows : List ParsedRow)
        (decimalSeparator : String),
      ∃ check, checkStatement lib balances rows decimalSeparator = .ok check ∧
        check.entryCount + check.unparseableEntries = rows.length) ∧
    ¬ ∀ (lib : TextLibrary) (config : BankFormats) (formatType : SourceFormat) (row : ParsedRow)
        (source : Source), ParserRow lib config formatType row → row.isValid = true →
      Contained (normalise lib row config formatType source) := by
  constructor
  · intro h
    have hescapes : Unsummable paymentLibrary "INR" "." notANumberRow :=
      ⟨"NaN", 2, by decide +kernel, by decide +kernel, by
        rw [show paymentLibrary.decimal (replaceText (strip "NaN") "." ".") = .nan by decide +kernel]
        trivial⟩
    exact checkStatement_returns_iff.mp (h paymentLibrary openStatement [notANumberRow] ".")
      notANumberRow List.mem_cons_self hescapes
  · intro h
    obtain ⟨hparsed, hvalid⟩ := notANumber_parsed notANumberRow List.mem_cons_self
    have hcontained := h paymentLibrary paymentBank .csv notANumberRow .internal hparsed hvalid
    exact (normalise_contained_iff (hparsed.hasFields hvalid) hvalid .internal).mp hcontained
      (notANumber_uncaught notANumberRow List.mem_cons_self)

end Recon
