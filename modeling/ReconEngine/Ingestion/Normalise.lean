import ReconEngine.Ingestion.Text
import ReconEngine.Matching.Group

/-!
# Normalising a row

`NormalisationPipeline.normalise` turns a parsed row into a canonical transaction: it reads the
date, the direction, the currency and the amount off their texts, and cleans the reference and the
name. A text that it cannot read is one kind of failure, which its caller catches for the row; all
other failures are not caught.

Dates, time zones and decimals are read by the standard library, and so are the letters of a text in
any script: what it makes of them is a parameter. A mark or a code that is written in other letters
than ASCII may be one that `str.upper` makes ASCII.

**What it does not establish.** What the library answers: the results about reading a field say what
follows from its answer. The fields of a canonical transaction that nothing later reads are left out.
-/

set_option autoImplicit false

namespace Recon

inductive SourceFormat where
  | csv
  | mt940
  | camt053
deriving DecidableEq, Repr

/-- What `Decimal` makes of a text. Infinities and NaN have no minor units. -/
inductive DecimalText where
  | invalid
  | nan
  | signalingNan
  | infinite
  | finite (value : Rat)
deriving DecidableEq, Repr

/-- The date and the time of day, in microseconds, that a text denotes. -/
structure LocalTime where
  date : Date
  time : Int
deriving DecidableEq, Repr

/-- What the normaliser uses of the standard library: the readers of dates, zones and numbers,
`str.upper`, `str.isalpha` and what `\w` stands for. A local time at the end of the calendar may have
no instant. -/
structure TextLibrary where
  strptime : String → String → Option LocalTime
  zoneInfo : String → Option (LocalTime → Option Instant)
  decimal : String → DecimalText
  upper : String → String := String.toUpper
  isAlpha : Char → Bool := Char.isAlpha
  isWord : Char → Bool := fun c => c.isAlphanum || c == '_'

structure CsvFormat where
  dateFormat : String
  amountDecimalSeparator : String := "."
  amountThousandsSeparator : Option String := none
deriving DecidableEq, Repr

structure Mt940Format where
  decimalSeparator : String
deriving DecidableEq, Repr

/-- The part of a bank's configuration that ingestion reads. -/
structure BankFormats where
  bankCode : String
  timezone : String
  currencyDefault : String
  supportedFormats : List SourceFormat
  csv : Option CsvFormat := none
  mt940 : Option Mt940Format := none
deriving DecidableEq, Repr

/-- How normalising a row fails: with a `NormalisationError`, or with any other error. -/
inductive NormalisationFailure where
  | rejected (message : String)
  | raised (error : ReconError)
deriving DecidableEq, Repr

abbrev Normalised := Except NormalisationFailure

/-! ## The fields -/

/-- A directive of the format is one of `%H %I %M %S %f %p`. -/
def formatHasTime (format : String) : Bool :=
  (format.toList.zip (format.toList.drop 1)).any fun (a, b) =>
    a == '%' && ['H', 'I', 'M', 'S', 'f', 'p'].contains b

structure NormalisedTimestamp where
  utc : Instant
  localDate : Date
deriving DecidableEq, Repr

/-- `normalise_timestamp`; a format without a time means midnight. -/
def normaliseTimestamp (lib : TextLibrary) (dateText dateFormat timezone : String) :
    Normalised NormalisedTimestamp :=
  match lib.zoneInfo timezone with
  | none => .error (.rejected (pythonRepr timezone ++ " is not a known IANA timezone"))
  | some zone =>
    match lib.strptime (strip dateText) dateFormat with
    | none => .error (.rejected
        (pythonRepr dateText ++ " does not match expected format " ++ pythonRepr dateFormat))
    | some parsed =>
      match zone ⟨parsed.date, if formatHasTime dateFormat then parsed.time else 0⟩ with
      | none => .error (.raised (.arithmetic "date value out of range"))
      | some utc => .ok ⟨utc, parsed.date⟩

def creditMarks : List String := ["CR", "C", "CRDT"]

def debitMarks : List String := ["DR", "D", "DBIT"]

def reversalCreditMarks : List String := ["RC"]

def reversalDebitMarks : List String := ["RD"]

/-- `normalise_direction`: the direction, and whether it is a reversal. -/
def normaliseDirection (lib : TextLibrary) (rawDirection : String) : Normalised (Direction × Bool) :=
  let mark := lib.upper (strip rawDirection)
  if mark ∈ creditMarks then .ok (.cr, false)
  else if mark ∈ debitMarks then .ok (.dr, false)
  else if mark ∈ reversalCreditMarks then .ok (.cr, true)
  else if mark ∈ reversalDebitMarks then .ok (.dr, true)
  else .error (.rejected
    (pythonRepr rawDirection ++ " is not a recognised direction/credit-debit mark"))

/-- `normalise_currency`. -/
def normaliseCurrency (lib : TextLibrary) (rawCurrency : String) : Normalised String :=
  let candidate := lib.upper (strip rawCurrency)
  if candidate.length ≠ 3 ∨ !candidate.toList.all lib.isAlpha then
    .error (.rejected (pythonRepr rawCurrency ++ " is not a 3-letter currency code"))
  else if (currencyExponent candidate lib.upper).isNone then
    .error (.rejected (unknownCurrency candidate))
  else .ok candidate

/-- `resolve_currency`, with no currency of the statement. -/
def resolveCurrency (lib : TextLibrary) (entryLevelCurrency : Option String)
    (bankConfigDefault : String) : Normalised String :=
  match entryLevelCurrency with
  | some text =>
    if strip text ≠ "" then normaliseCurrency lib text else normaliseCurrency lib bankConfigDefault
  | none => normaliseCurrency lib bankConfigDefault

/-- The context keeps 28 digits, and a number that needs more cannot be quantised. -/
def quantiseLimit : Int := 10 ^ 28

/-- `normalise_amount`, in minor units. `Money.from_decimal` makes the code upper case once more,
which changes nothing. -/
def normaliseAmount (lib : TextLibrary) (amountText currency decimalSeparator : String)
    (thousandsSeparator : Option String) : Normalised Int :=
  let cleaned := strip amountText
  let cleaned := match thousandsSeparator with
    | some separator => if separator = "" then cleaned else replaceText cleaned separator ""
    | none => cleaned
  let cleaned := if decimalSeparator = "." then cleaned
    else replaceText cleaned decimalSeparator "."
  match lib.decimal cleaned, currencyExponent currency lib.upper with
  | .invalid, _ =>
    .error (.rejected (pythonRepr amountText ++ " could not be parsed as a decimal amount"))
  | _, none =>
    .error (.rejected (unknownCurrency currency))
  | .nan, some _ => .error (.raised (.valueError "cannot convert NaN to integer"))
  | .signalingNan, some _ => .error (.raised (.arithmetic "InvalidOperation"))
  | .infinite, some _ => .error (.raised (.arithmetic "InvalidOperation"))
  | .finite value, some exponent =>
    let minorUnits := halfEven (value * 10 ^ exponent)
    if quantiseLimit ≤ |minorUnits| then .error (.raised (.arithmetic "InvalidOperation"))
    else .ok minorUnits

def isFormatting (c : Char) : Bool := pythonBlank c || ['-', '_', '.'].contains c

/-- What stands for a double slash while the formatting goes. -/
def doubleSlash : String := String.ofList ('\x00' :: "DOUBLESLASH".toList ++ ['\x00'])

/-- `clean_reference`. -/
def cleanReference (lib : TextLibrary) (rawReference : String) : String :=
  let guarded := replaceText (strip rawReference) "//" doubleSlash
  let cleaned := String.ofList (guarded.toList.filter (!isFormatting ·))
  lib.upper (replaceText cleaned doubleSlash "//")

def abbreviationExpansions : List (String × String) :=
  [("PVT", "PRIVATE"), ("PVT.", "PRIVATE"), ("LTD", "LIMITED"), ("LTD.", "LIMITED"),
    ("CORP", "CORPORATION"), ("CORP.", "CORPORATION"), ("CO", "COMPANY"), ("CO.", "COMPANY"),
    ("INC", "INCORPORATED"), ("INC.", "INCORPORATED"), ("LLP", "LIMITED LIABILITY PARTNERSHIP")]

/-- The tokens of a text: what stands between runs of blanks. -/
def tokens (text : List Char) : List (List Char) :=
  (text.splitOnP pythonBlank).filter (· ≠ [])

/-- `clean_counterparty_name`. -/
def cleanCounterpartyName (lib : TextLibrary) (rawName : String) : String :=
  let plain := (lib.upper (strip rawName)).toList.map fun c =>
    if lib.isWord c || pythonBlank c then c else ' '
  " ".intercalate ((tokens plain).map fun token =>
    (abbreviationExpansions.lookup (String.ofList token)).getD (String.ofList token))

/-! ## The row -/

def ParsedRow.isValid (row : ParsedRow) : Bool := row.errors.isEmpty

/-- `row.mapped[key]`. -/
def ParsedRow.field (row : ParsedRow) (key : String) : Normalised String :=
  match row.mapped.lookup key with
  | some text => .ok text
  | none => .error (.raised (.keyError key))

/-- What the pipeline makes of a row; a transaction without its identifiers. -/
structure CanonicalTransaction where
  source : Source
  bankCode : String
  sourceLineNo : Int
  txnDate : Date
  settlementDate : Option Date
  txnTimestampUtc : Instant
  amountMinor : Int
  currency : String
  direction : Direction
  isReversal : Bool
  counterpartyNameNormalised : Option String
  narration : Option String
  originalReferenceText : String
  normalisedReference : String
deriving DecidableEq, Repr

/-- `_date_format_for`. -/
def dateFormatFor (formatType : SourceFormat) (config : BankFormats) : Normalised String :=
  match formatType with
  | .csv => match config.csv with
    | some csv => .ok csv.dateFormat
    | none => .error (.rejected (config.bankCode ++ ": no CSV configuration present"))
  | .mt940 => .ok "%y%m%d"
  | .camt053 => .ok "%Y-%m-%d"

/-- `_amount_separators_for`. -/
def amountSeparatorsFor (formatType : SourceFormat) (config : BankFormats) :
    Normalised (String × Option String) :=
  match formatType with
  | .csv => match config.csv with
    | some csv => .ok (csv.amountDecimalSeparator, csv.amountThousandsSeparator)
    | none => .error (.rejected (config.bankCode ++ ": no CSV configuration present"))
  | .mt940 => match config.mt940 with
    | some mt940 => .ok (mt940.decimalSeparator, none)
    | none => .error (.rejected (config.bankCode ++ ": no MT940 configuration present"))
  | .camt053 => .ok (".", none)

/-- The check of the canonical model: the sign belongs on the direction. -/
def checkAmount (amountMinor : Int) : Normalised Unit :=
  if amountMinor < 0 then .error (.raised (.valueError "amount must be non-negative")) else .ok ()

/-- `_normalise_valid_row`. -/
def normaliseValidRow (lib : TextLibrary) (row : ParsedRow) (config : BankFormats)
    (formatType : SourceFormat) (source : Source) : Normalised CanonicalTransaction := do
  let dateFormat ← dateFormatFor formatType config
  let timestamp ← normaliseTimestamp lib (← row.field "txn_date") dateFormat config.timezone
  let (direction, isReversal) ← normaliseDirection lib (← row.field "direction")
  let currency ← resolveCurrency lib (row.mapped.lookup "currency") config.currencyDefault
  let (decimalSeparator, thousandsSeparator) ← amountSeparatorsFor formatType config
  let amountMinor ← normaliseAmount lib (← row.field "amount") currency decimalSeparator
    thousandsSeparator
  let reference ← row.field "reference"
  let settlementDate ← match row.mapped.lookup "settlement_date" with
    | some text =>
      if text = "" then pure none
      else (some ·.localDate) <$> normaliseTimestamp lib text dateFormat config.timezone
    | none => pure none
  checkAmount amountMinor
  return {
    source
    bankCode := config.bankCode
    sourceLineNo := row.lineNo
    txnDate := timestamp.localDate
    settlementDate
    txnTimestampUtc := timestamp.utc
    amountMinor
    currency
    direction
    isReversal
    counterpartyNameNormalised := match row.mapped.lookup "counterparty_name" with
      | some name => if name = "" then none else some (cleanCounterpartyName lib name)
      | none => none
    narration := (row.mapped.lookup "narration").map strip
    originalReferenceText := strip reference
    normalisedReference := cleanReference lib reference }

/-- `NormalisationPipeline.normalise`. -/
def normalise (lib : TextLibrary) (row : ParsedRow) (config : BankFormats)
    (formatType : SourceFormat) (source : Source) : Normalised CanonicalTransaction :=
  if !row.isValid then
    .error (.rejected "cannot normalise a row with existing parse errors")
  else normaliseValidRow lib row config formatType source

end Recon
