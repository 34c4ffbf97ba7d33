import ReconEngine.Ingestion.Normalise

/-!
# MT940 statements

The lexer splits a text into fields: a line that starts with a tag opens one, and every other line
continues it. The parser collects the header fields and the balances, and makes a row of each
statement line `:61:`, with the narrative `:86:` that stands directly after it.

**The law** (`lex_lines`): the lines of the fields, one after the other, are the non-blank lines of
the text. The field that is open is part of what has been read: `flush` closes it, and the
invariant is about the fields with that one among them.

**What it does not establish.** What rows are made of the fields, and which errors end the parser:
`Ingestion.Mt940Laws`. The bytes of a file are decoded before the lexer sees them.
-/

set_option autoImplicit false

namespace Recon

/-- How a parser fails: with the one error it has for a file, or with any other error. -/
inductive ParserFailure where
  | refused (message : String)
  | raised (error : ReconError)
deriving DecidableEq, Repr

abbrev Parsing := Except ParserFailure

namespace Mt940

/-! ## The lexer -/

structure LexedField where
  tag : String
  content : List Char
  lineNo : Nat
deriving DecidableEq, Repr

/-- `_TAG_LINE`: the tag of a line that opens a field, and the rest of the line. -/
def tagLine : List Char → Option (String × List Char)
  | ':' :: first :: second :: rest =>
    if isDecimal first && isDecimal second then
      match rest with
      | ':' :: content => some (String.ofList [first, second], content)
      | letter :: ':' :: content =>
        if letter.isUpper then some (String.ofList [first, second, letter], content) else none
      | _ => none
    else none
  | _ => none

/-- A field that later lines may continue. -/
structure OpenField where
  tag : String
  content : List (List Char)
  lineNo : Nat
deriving DecidableEq, Repr

def OpenField.close (field : OpenField) : LexedField :=
  ⟨field.tag, ['\n'].intercalate field.content, field.lineNo⟩

structure LexState where
  fields : List LexedField := []
  current : Option OpenField := none
deriving DecidableEq, Repr

/-- `_flush`. -/
def LexState.flush (state : LexState) : List LexedField :=
  state.fields ++ (state.current.map OpenField.close).toList

/-- One line of the loop, with its number. -/
def lexLine (state : LexState) (line : List Char × Nat) : Except String LexState :=
  if isBlank line.1 then .ok state
  else match tagLine line.1, state.current with
    | some (tag, content), _ => .ok ⟨state.flush, some ⟨tag, [content], line.2⟩⟩
    | none, none =>
      .error ("line " ++ toString line.2 ++ ": content before any tag: " ++
        pythonRepr (String.ofList line.1))
    | none, some field =>
      .ok { state with current := some { field with content := field.content ++ [line.1] } }

/-- `lex`; the message is that of a `MT940LexError`. -/
def lex (text : List Char) : Except String (List LexedField) := do
  let state ← ((splitLines text).zipIdx 1).foldlM lexLine {}
  if state.flush = [] then .error "file is empty or contains no recognisable MT940 fields"
  else return state.flush

/-! ## The statement line -/

structure ParsedField61 where
  valueDateRaw : List Char
  entryDateRaw : Option (List Char)
  mark : String
  isReversal : Bool
  fundsCode : Option Char
  amountRaw : List Char
  transactionTypeCode : List Char
  referenceRaw : List Char
  supplementaryDetails : Option (List Char)
deriving DecidableEq, Repr

/-- Exactly so many digits, and what follows them. -/
def takeDecimals (count : Nat) (text : List Char) : Option (List Char × List Char) :=
  if (text.take count).length = count ∧ (text.take count).all isDecimal then
    some (text.take count, text.drop count)
  else none

/-- `RC|RD|C|D`. -/
def takeMark : List Char → Option (String × List Char)
  | 'R' :: 'C' :: rest => some ("RC", rest)
  | 'R' :: 'D' :: rest => some ("RD", rest)
  | 'C' :: rest => some ("C", rest)
  | 'D' :: rest => some ("D", rest)
  | _ => none

def isAmountChar (c : Char) : Bool := isDecimal c || c == '.' || c == ','

/-- `parse_field_61`. What may be there is taken when it is: no part of the pattern can begin with
a character that the part before it could have taken. -/
def parseField61 (content : List Char) : Option ParsedField61 := do
  let firstLine := content.takeWhile (· != '\n')
  let supplementary := stripChars ((content.dropWhile (· != '\n')).drop 1)
  let (valueDate, rest) ← takeDecimals 6 firstLine
  let (entryDate, rest) := match takeDecimals 4 rest with
    | some (digits, rest) => (some digits, rest)
    | none => (none, rest)
  let (mark, rest) ← takeMark rest
  let (fundsCode, rest) := match rest with
    | c :: after => if c.isAlpha then (some c, after) else (none, rest)
    | [] => (none, rest)
  let amount := rest.takeWhile isAmountChar
  if amount = [] then none
  match rest.dropWhile isAmountChar with
  | a :: b :: c :: d :: reference =>
    if a.isAlpha && b.isAlphanum && c.isAlphanum && d.isAlphanum then
      some {
        valueDateRaw := valueDate
        entryDateRaw := entryDate
        mark := mark
        isReversal := mark = "RC" || mark = "RD"
        fundsCode := fundsCode
        amountRaw := amount
        transactionTypeCode := [a, b, c, d]
        referenceRaw := stripChars reference
        supplementaryDetails := if supplementary = [] then none else some supplementary }
    else none
  | _ => none

/-! ## The parser -/

structure Balance where
  tag : String
  mark : String
  dateRaw : String
  currency : String
  amountRaw : String
deriving DecidableEq, Repr

structure StatementHeader where
  transactionReference : Option String := none
  accountId : Option String := none
  statementNumber : Option String := none
  openingBalance : Option Balance := none
  closingBalance : Option Balance := none
deriving DecidableEq, Repr

def openingTags : List String := ["60F", "60M"]

def closingTags : List String := ["62F", "62M"]

/-- `_parse_balance`: one character of mark, six of date and three of currency. -/
def parseBalance (tag : String) (content : List Char) : Parsing Balance :=
  match content with
  | [] => .error (.raised (.indexError "string index out of range"))
  | mark :: rest =>
    .ok ⟨tag, String.ofList [mark], String.ofList (rest.take 6),
      String.ofList ((rest.drop 6).take 3), String.ofList (rest.drop 9)⟩

/-- One field of `_extract_header`; a later field of the same kind replaces an earlier one. -/
def headerField (header : StatementHeader) (field : LexedField) : Parsing StatementHeader :=
  let text := String.ofList (stripChars field.content)
  if field.tag = "20" then .ok { header with transactionReference := some text }
  else if field.tag = "25" then .ok { header with accountId := some text }
  else if field.tag = "28C" then .ok { header with statementNumber := some text }
  else if field.tag ∈ openingTags then
    (parseBalance field.tag field.content).map fun b => { header with openingBalance := some b }
  else if field.tag ∈ closingTags then
    (parseBalance field.tag field.content).map fun b => { header with closingBalance := some b }
  else .ok header

/-- `_extract_header`. -/
def extractHeader (fields : List LexedField) : Parsing StatementHeader :=
  fields.foldlM headerField {}

section

variable (lib : TextLibrary) (decimalSeparator : String)

/-- The errors of a statement line that has the expected structure. -/
def rowErrors (parsed : ParsedField61) : List ParseError :=
  let amount := String.ofList parsed.amountRaw
  let date := String.ofList parsed.valueDateRaw
  let normalisedAmount :=
    if decimalSeparator = "." then amount else replaceText amount decimalSeparator "."
  (if isBlank parsed.referenceRaw then
    [⟨"MISSING_REQUIRED_FIELD", some "reference", "customer reference is empty"⟩] else []) ++
  (if (lib.strptime date "%y%m%d").isNone then
    [⟨"INVALID_DATE", some "txn_date", pythonRepr date ++ " is not a valid YYMMDD date"⟩]
    else []) ++
  (if lib.decimal normalisedAmount = .invalid then
    [⟨"INVALID_AMOUNT", some "amount",
      pythonRepr amount ++ " could not be parsed as a decimal amount"⟩]
    else [])

/-- `_build_row`. -/
def buildRow (field : LexedField) (narration : List Char) : ParsedRow :=
  let rawFields := [("61", String.ofList field.content), ("86", String.ofList narration)]
  match parseField61 field.content with
  | none =>
    { lineNo := field.lineNo, rawFields, mapped := [],
      errors := [⟨"MALFORMED_FIELD", none, ":61: content does not match expected structure: " ++
        pythonRepr (String.ofList (field.content.takeWhile (· != '\n')))⟩] }
  | some parsed =>
    { lineNo := field.lineNo, rawFields,
      mapped := [("reference", String.ofList parsed.referenceRaw),
        ("txn_date", String.ofList parsed.valueDateRaw),
        ("amount", String.ofList parsed.amountRaw), ("direction", parsed.mark),
        ("narration", String.ofList narration)]
      errors := rowErrors lib decimalSeparator parsed }

/-- `_extract_rows`: a narrative that follows a statement line is consumed with it. -/
def extractRows : List LexedField → List ParsedRow
  | [] => []
  | [field] => if field.tag = "61" then [buildRow lib decimalSeparator field []] else []
  | field :: next :: rest =>
    if field.tag ≠ "61" then extractRows (next :: rest)
    else if next.tag = "86" then
      buildRow lib decimalSeparator field (stripChars next.content) :: extractRows rest
    else buildRow lib decimalSeparator field [] :: extractRows (next :: rest)

end

/-- `MT940Parser.parse_with_header`. -/
def parseWithHeader (lib : TextLibrary) (text : String) (config : BankFormats) :
    Parsing (StatementHeader × List ParsedRow) :=
  match config.mt940 with
  | none => .error (.refused (config.bankCode ++ ": no MT940 configuration present"))
  | some format =>
    match lex text.toList with
    | .error message => .error (.refused message)
    | .ok fields => do
      let header ← extractHeader fields
      return (header, extractRows lib format.decimalSeparator fields)

end Mt940

end Recon
