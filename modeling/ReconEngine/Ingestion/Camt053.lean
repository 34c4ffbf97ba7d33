import ReconEngine.Ingestion.Mt940Laws

/-!
# CAMT.053 documents

An element is known by its name, its attributes, the text before its first child and its children;
a document is what the XML library makes of a file. The parser takes the header and the balances
off the first statement and makes a row of each of its entries.

**The law** (`entries_kept_iff`): the rows are those of all entries of the document, in order, if
and only if the statements after the first have no entries.

**What it does not establish.** What the XML library makes of a file, or that a row of an entry can
be normalised. Namespaces are gone before the parser looks.
-/

set_option autoImplicit false

namespace Recon.Camt053

/-! ## Elements -/

inductive Element where
  | mk (namespaceUri : String) (localName : String) (attributes : List (String × String))
    (text : Option String) (children : List Element)

namespace Element

def namespaceUri : Element → String
  | mk uri _ _ _ _ => uri

def localName : Element → String
  | mk _ name _ _ _ => name

/-- `element.tag`: the name, behind its namespace in braces where there is one. -/
def tag (element : Element) : String :=
  if element.namespaceUri = "" then element.localName
  else "\x7b" ++ element.namespaceUri ++ "\x7d" ++ element.localName

/-- `element.get(name)`. -/
def get (name : String) : Element → Option String
  | mk _ _ attributes _ _ => attributes.lookup name

def text : Element → Option String
  | mk _ _ _ text _ => text

def children : Element → List Element
  | mk _ _ _ _ children => children

end Element

def camt053Namespace : String := "urn:iso:std:iso:20022:tech:xsd:camt.053.001.08"

def Element.isNamed (name : String) (element : Element) : Bool :=
  element.namespaceUri == camt053Namespace && element.localName == name

/-- `find_all`, of a path of names in the namespace. -/
def findAll : List String → Element → List Element
  | [], element => [element]
  | name :: path, element => (element.children.filter (·.isNamed name)).flatMap (findAll path)

/-- `find`. -/
def find (path : List String) (element : Element) : Option Element := (findAll path element).head?

/-- `text_of`: the text without surrounding blanks, unless nothing is left of it. -/
def textOf (element : Option Element) : Option String :=
  (element.bind Element.text).bind fun text => if strip text = "" then none else some (strip text)

/-! ## The header -/

structure Balance where
  typeCode : String
  creditDebitIndicator : String
  dateRaw : Option String
  currency : Option String
  amountRaw : Option String
deriving DecidableEq, Repr

structure StatementHeader where
  messageId : Option String
  accountId : Option String
  statementId : Option String
  balances : List Balance
deriving DecidableEq, Repr

/-- `_parse_balance`. -/
def parseBalance (bal : Element) : Balance where
  typeCode := (textOf (find ["Tp", "CdOrPrtry", "Cd"] bal)).getD ""
  creditDebitIndicator := (textOf (find ["CdtDbtInd"] bal)).getD ""
  dateRaw := textOf (find ["Dt", "Dt"] bal)
  currency := (find ["Amt"] bal).bind (·.get "Ccy")
  amountRaw := textOf (find ["Amt"] bal)

/-- `_extract_header`. -/
def extractHeader (root stmt : Element) : StatementHeader where
  messageId := (find ["GrpHdr"] root).bind fun header => textOf (find ["MsgId"] header)
  accountId := (find ["Acct"] stmt).bind fun account =>
    textOf (find ["Id", "IBAN"] account) <|> textOf (find ["Id", "Othr", "Id"] account)
  statementId := textOf (find ["Id"] stmt)
  balances := (findAll ["Bal"] stmt).map parseBalance

/-! ## The rows -/

/-- What the transaction details of an entry say, over all of them. -/
structure TxDetails where
  endToEndId : Option String
  counterpartyName : Option String
  narrationParts : List String
deriving DecidableEq, Repr

/-- `_extract_tx_details`. -/
def extractTxDetails (ntry : Element) : TxDetails :=
  let details := (findAll ["NtryDtls"] ntry).flatMap (findAll ["TxDtls"])
  { endToEndId := details.findSome? fun tx => textOf (find ["Refs", "EndToEndId"] tx)
    counterpartyName := details.findSome? fun tx => textOf (find ["RltdPties", "Cdtr", "Nm"] tx)
    narrationParts := details.filterMap fun tx => textOf (find ["AddtlTxInf"] tx) }

/-- `_extract_entry_level_fields` and `_finalise_mapped_fields`: the fields of an entry. -/
def mappedFields (ntry : Element) : List (String × String) :=
  let details := extractTxDetails ntry
  let narration := details.narrationParts ++ (textOf (find ["AddtlNtryInf"] ntry)).toList
  [("txn_date", (textOf (find ["BookgDt", "Dt"] ntry)).getD ""),
    ("settlement_date", (textOf (find ["ValDt", "Dt"] ntry)).getD ""),
    ("amount", (textOf (find ["Amt"] ntry)).getD ""),
    ("currency", ((find ["Amt"] ntry).bind (·.get "Ccy")).getD ""),
    ("direction", (textOf (find ["CdtDbtInd"] ntry)).getD ""),
    ("reference", details.endToEndId.getD "")] ++
  (details.counterpartyName.map fun name => ("counterparty_name", name)).toList ++
  (if narration = [] then [] else [("narration", " | ".intercalate narration)])

def rawFields (index : Nat) (ntry : Element) : List (String × String) :=
  [("amount", (textOf (find ["Amt"] ntry)).getD ""),
    ("currency", ((find ["Amt"] ntry).bind (·.get "Ccy")).getD ""),
    ("direction", (textOf (find ["CdtDbtInd"] ntry)).getD ""),
    ("bookg_dt", (textOf (find ["BookgDt", "Dt"] ntry)).getD ""),
    ("val_dt", (textOf (find ["ValDt", "Dt"] ntry)).getD ""),
    ("entry_index", toString index)]

/-- `_validate_amount`. -/
def amountErrors (lib : TextLibrary) (amountRaw : String) : List ParseError :=
  if amountRaw = "" then
    [⟨"MISSING_REQUIRED_FIELD", some "amount", "Ntry/Amt is missing"⟩]
  else if lib.decimal amountRaw = .invalid then
    [⟨"INVALID_AMOUNT", some "amount",
      pythonRepr amountRaw ++ " could not be parsed as a decimal amount"⟩]
  else []

/-- `_validate_row`. -/
def rowErrors (lib : TextLibrary) (mapped : List (String × String)) : List ParseError :=
  let field := fun key => (mapped.lookup key).getD ""
  (if strip (field "reference") = "" then
    [⟨"MISSING_REQUIRED_FIELD", some "reference",
      "no EndToEndId found under any NtryDtls/TxDtls"⟩] else []) ++
  (if field "txn_date" = "" then
    [⟨"MISSING_REQUIRED_FIELD", some "txn_date", "Ntry/BookgDt/Dt is missing"⟩] else []) ++
  (if field "direction" ∈ ["CRDT", "DBIT"] then []
    else [⟨"MALFORMED_FIELD", some "direction",
      "CdtDbtInd=" ++ pythonRepr (field "direction") ++ " is neither CRDT nor DBIT"⟩]) ++
  (if field "currency" = "" then
    [⟨"MISSING_REQUIRED_FIELD", some "currency", "Amt/@Ccy attribute is missing"⟩] else []) ++
  amountErrors lib (field "amount")

/-- `_build_row`. -/
def buildRow (lib : TextLibrary) (ntry : Element) (index : Nat) : ParsedRow where
  lineNo := index
  rawFields := rawFields index ntry
  mapped := mappedFields ntry
  errors := rowErrors lib (mappedFields ntry)

/-- `_extract_rows`: the entries of a statement, counted from 1. -/
def extractRows (lib : TextLibrary) (stmt : Element) : List ParsedRow :=
  ((findAll ["Ntry"] stmt).zipIdx 1).map fun (ntry, index) => buildRow lib ntry index

/-! ## The parser -/

/-- `CAMT053Parser.parse_with_header`, on the root of the document or the message of the syntax
error. -/
def parseWithHeader (lib : TextLibrary) (document : Except String Element) :
    Parsing (StatementHeader × List ParsedRow) :=
  match document with
  | .error message => .error (.refused ("malformed XML: " ++ message))
  | .ok root =>
    if !root.isNamed "BkToCstmrStmt" then
      .error (.refused ("root element is not a namespace-qualified BkToCstmrStmt (got " ++
        pythonRepr root.tag ++ "); this does not look like a CAMT.053 statement"))
    else
      match find ["Stmt"] root with
      | none => .error (.refused "BkToCstmrStmt/Stmt element is missing")
      | some stmt => .ok (extractHeader root stmt, extractRows lib stmt)

/-! ## Entries and rows -/

/-- The entries of every statement of a document, in document order. -/
def allEntries (root : Element) : List Element :=
  (findAll ["Stmt"] root).flatMap (findAll ["Ntry"])

/-- The row of an entry, wherever it is counted. -/
def RowOf (lib : TextLibrary) (ntry : Element) (row : ParsedRow) : Prop :=
  ∃ index, row = buildRow lib ntry index

/-- The rows that the parser yields; a document that it refuses gives none. -/
def yielded (lib : TextLibrary) (root : Element) : List ParsedRow :=
  match parseWithHeader lib (.ok root) with
  | .ok (_, rows) => rows
  | .error _ => []

section

variable (lib : TextLibrary) {root : Element}

/-- The rows of a statement are those of its entries, in order. -/
theorem extractRows_rowOf (stmt : Element) :
    List.Forall₂ (RowOf lib) (findAll ["Ntry"] stmt) (extractRows lib stmt) := by
  have hpairs : List.Forall₂ (fun ntry (pair : Element × Nat) => pair.1 = ntry)
      (findAll ["Ntry"] stmt) ((findAll ["Ntry"] stmt).zipIdx 1) := by
    rw [List.forall₂_iff_get]
    simp
  rw [extractRows, List.forall₂_map_right_iff]
  exact hpairs.imp fun ntry pair h => ⟨pair.2, by rw [← h]⟩

/-- The parser yields the rows of the first statement. -/
theorem yielded_eq (hroot : root.isNamed "BkToCstmrStmt" = true) :
    yielded lib root = ((findAll ["Stmt"] root).head?.map (extractRows lib)).getD [] := by
  unfold yielded parseWithHeader find
  cases h : (findAll ["Stmt"] root).head? <;> simp [hroot, h]

/-- **No entry is lost exactly when only the first statement has entries**: the parser visits one
statement of the document, and each of its entries once. -/
theorem entries_kept_iff (root : Element)
    (hroot : root.isNamed "BkToCstmrStmt" = true) :
    ((findAll ["Stmt"] root ≠ [] →
        ∃ header rows, parseWithHeader lib (.ok root) = .ok (header, rows)) ∧
      List.Forall₂ (RowOf lib) (allEntries root) (yielded lib root)) ↔
      ∀ stmt ∈ (findAll ["Stmt"] root).tail, findAll ["Ntry"] stmt = [] := by
  rw [yielded_eq lib hroot, allEntries]
  cases hstmts : findAll ["Stmt"] root with
  | nil => simp
  | cons first later =>
    have hparse : ∃ header rows, parseWithHeader lib (.ok root) = .ok (header, rows) := by
      refine ⟨extractHeader root first, extractRows lib first, ?_⟩
      simp [parseWithHeader, hroot, find, hstmts]
    simp only [hparse, List.flatMap_cons, List.head?_cons, Option.map_some, Option.getD_some,
      List.tail_cons, ne_eq, implies_true, true_and]
    have hfirst := extractRows_rowOf lib first
    constructor
    · intro h
      have hlength := h.length_eq
      rw [List.length_append, hfirst.length_eq] at hlength
      have hnone : later.flatMap (findAll ["Ntry"]) = [] :=
        List.eq_nil_of_length_eq_zero (by omega)
      exact List.flatMap_eq_nil_iff.mp hnone
    · intro h
      rw [List.flatMap_eq_nil_iff.mpr h, List.append_nil]
      exact hfirst

end

/-! ## A document of two statements -/

/-- An element of the namespace, without attributes. -/
def node (name : String) (children : List Element) : Element :=
  .mk camt053Namespace name [] none children

def twoStatements : Element :=
  node "BkToCstmrStmt" [node "Stmt" [node "Ntry" []], node "Stmt" [node "Ntry" []]]

def oneStatement : Element := node "BkToCstmrStmt" [node "Stmt" [node "Ntry" [], node "Ntry" []]]

theorem entries_kept_iff_oneStatement :
    ((findAll ["Stmt"] oneStatement ≠ [] → ∃ header rows,
        parseWithHeader Mt940.statementLibrary (.ok oneStatement) = .ok (header, rows)) ∧
      List.Forall₂ (RowOf Mt940.statementLibrary) (allEntries oneStatement)
        (yielded Mt940.statementLibrary oneStatement)) ↔
      ∀ stmt ∈ (findAll ["Stmt"] oneStatement).tail, findAll ["Ntry"] stmt = [] :=
  entries_kept_iff Mt940.statementLibrary oneStatement (by decide)

/-- The entry of the second statement has no row. -/
theorem secondStatement_lost :
    ¬ ∀ (lib : TextLibrary) (root : Element), root.isNamed "BkToCstmrStmt" = true →
      (findAll ["Stmt"] root ≠ [] →
          ∃ header rows, parseWithHeader lib (.ok root) = .ok (header, rows)) ∧
        List.Forall₂ (RowOf lib) (allEntries root) (yielded lib root) := by
  intro h
  have hrows := (h Mt940.statementLibrary twoStatements (by decide)).2.length_eq
  have hentries : (allEntries twoStatements).length = 2 := by decide +kernel
  have hyielded : (yielded Mt940.statementLibrary twoStatements).length = 1 := by decide +kernel
  omega

end Recon.Camt053
