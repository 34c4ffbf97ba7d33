import ReconEngine.Samples.Entries

/-!
# CAMT.053 sample statements

`write_camt` writes a document as a tree of elements; escaping and the XML library are inverse to each
other, so the tree is what the parser gets.

**The law** (`writeCamt_balanced_iff`): the document is read back and balances when no reversal is
among its entries, or the reversals cancel out. The closing balance counts a reversal the other way
round, as the docstring of `_signed` says, and the indicator of an entry does not.

**What it does not establish.** That either end is wrong where they disagree: `reversal_unbalanced`
says only that a document with one reversal does not balance when it is read back.
-/

set_option autoImplicit false

namespace Recon.Samples.Camt

open Camt053

/-! ## The writer -/

/-- An element that holds a text. -/
def leaf (name text : String) : Element :=
  .mk camt053Namespace name [] (nonBlank (some text)) []

/-- An amount with its currency. -/
def amountElement (currency text : String) : Element :=
  .mk camt053Namespace "Amt" [("Ccy", currency)] (some text) []

/-- A balance with the text of its amount. -/
def balanceElement (code : String) (minor : Int) (day : Date) (currency text : String) : Element :=
  node "Bal" [node "Tp" [node "CdOrPrtry" [leaf "Cd" code]], amountElement currency text,
    leaf "CdtDbtInd" (if minor < 0 then "DBIT" else "CRDT"), node "Dt" [leaf "Dt" (isoformat day)]]

/-- The transaction details of an entry. -/
def detailsElement (e : Entry) : Element :=
  node "TxDtls" ([node "Refs" [leaf "EndToEndId" e.ref]] ++
    ((nonBlank e.counterparty).map fun name =>
      node "RltdPties" [node "Cdtr" [leaf "Nm" name]]).toList ++
    [leaf "AddtlTxInf" (if e.narration = "" then "Payment" else e.narration)])

/-- The indicator of an entry, whether it is a reversal or not. -/
def indicator (e : Entry) : String := if e.direction = .dr then "DBIT" else "CRDT"

/-- An entry with the text of its amount. -/
def entryElement (e : Entry) (text : String) : Element :=
  node "Ntry" [amountElement e.currency text,
    leaf "CdtDbtInd" (indicator e), leaf "Sts" "BOOK",
    node "BookgDt" [leaf "Dt" (isoformat e.day)],
    node "ValDt" [leaf "Dt" (isoformat (e.settleDay.getD e.day))],
    node "NtryDtls" [detailsElement e]]

def closingMinor (entries : List Entry) (openingMinor : Int) : Int :=
  openingMinor + (entries.map signed).sum

/-- The element of an entry. -/
def writeEntry (e : Entry) : Except ReconError Element := do
  return entryElement e (← decimalText e.amountMinor e.currency ".")

/-- `write_camt`, up to the text of the document. -/
def writeCamt (entries : List Entry) (currency account statementId : String)
    (openingMinor : Int := mt940DefaultOpeningMinor) : Except ReconError Element := do
  let closing := closingMinor entries openingMinor
  let openingText ← decimalText |openingMinor| currency "."
  let closingText ← decimalText |closing| currency "."
  let body ← entries.mapM writeEntry
  return node "BkToCstmrStmt" [node "GrpHdr" [leaf "MsgId" ("MSG-" ++ statementId)],
    node "Stmt" ([leaf "Id" statementId, node "Acct" [node "Id" [leaf "IBAN" account]],
      balanceElement "OPBD" openingMinor (firstDay entries) currency openingText,
      balanceElement "CLBD" closing (lastDay entries) currency closingText] ++ body)]

/-! ## What is read back -/

/-- The row of an entry: its reference, its amount and its day. -/
structure EntryRow (lib : TextLibrary) (e : Entry) (row : ParsedRow) : Prop where
  reference : row.mapped.lookup "reference" = some e.ref
  amount : toMinor lib (row.mapped.lookup "amount") e.currency "." = .ok (some e.amountMinor)
  day : (row.mapped.lookup "txn_date").bind (lib.strptime · "%Y-%m-%d") = some ⟨e.day, 0⟩

/-- The document is written, read with a row for each entry, and balances. -/
def ReadsBack (lib : TextLibrary) (entries : List Entry) (currency account statementId : String)
    (openingMinor : Int) : Prop :=
  ∃ document header rows check,
    writeCamt entries currency account statementId openingMinor = .ok document ∧
      parseWithHeader lib (.ok document) = .ok (header, rows) ∧
      List.Forall₂ (EntryRow lib) entries rows ∧
      ingestionCheck lib (.camt header) rows "." = .ok (some check) ∧ check.balanced = true

/-- What an entry adds to a balance by its indicator. -/
def marked (e : Entry) : Int := if e.direction = .dr then -e.amountMinor else e.amountMinor

/-- A balance as it is stated: the context keeps so much of it. -/
def statedMinor (minor : Int) : Int :=
  if minor < 0 then -keptUnits |minor| else keptUnits |minor|

/-- The entries and the balances that are read back, and whose sums agree. -/
structure Agrees (entries : List Entry) (currency : String) (openingMinor : Int) : Prop where
  currency : (currencyExponent currency).isSome
  references : ∀ e ∈ entries, strip e.ref = e.ref
  amounts : ∀ e ∈ entries, Kept e.amountMinor
  opening : overflows (keptUnits |openingMinor| : Rat) = false
  closing : overflows (keptUnits |closingMinor entries openingMinor| : Rat) = false
  sums : statedMinor openingMinor + (entries.map marked).sum =
    statedMinor (closingMinor entries openingMinor)

/-! ## Elements by their names -/

theorem textOf_leaf (name text : String) :
    textOf (some (leaf name text)) = if strip text = "" then none else some (strip text) := by
  by_cases h : text = ""
  · subst h
    rfl
  · have hblank : nonBlank (some text) = some text := by simp [nonBlank, Option.filter, h]
    rw [textOf, leaf, Option.bind_some, Element.text, hblank, Option.bind_some]

@[simp] theorem children_node (name : String) (children : List Element) :
    (node name children).children = children := rfl

@[simp] theorem isNamed_node (name other : String) (children : List Element) :
    (node name children).isNamed other = (name == other) := by
  simp [Element.isNamed, node, Element.namespaceUri, Element.localName]

@[simp] theorem isNamed_leaf (name other text : String) :
    (leaf name text).isNamed other = (name == other) := by
  simp [Element.isNamed, leaf, Element.namespaceUri, Element.localName]

@[simp] theorem isNamed_amountElement (other currency text : String) :
    (amountElement currency text).isNamed other = ("Amt" == other) := by
  simp [Element.isNamed, amountElement, Element.namespaceUri, Element.localName]

theorem get_amountElement (currency text : String) :
    (amountElement currency text).get "Ccy" = some currency := by
  simp [Element.get, amountElement]

theorem textOf_amountElement {currency text : String} (hstrip : strip text = text) (hne : text ≠ "") :
    textOf (some (amountElement currency text)) = some text := by
  simp [textOf, amountElement, Element.text, hstrip, hne]

/-! ## Rows -/

theorem findAll_details (e : Entry) (text : String) :
    (findAll ["NtryDtls"] (entryElement e text)).flatMap (findAll ["TxDtls"]) =
      [detailsElement e] := by
  simp [findAll, entryElement, detailsElement]

theorem find_endToEndId (e : Entry) :
    find ["Refs", "EndToEndId"] (detailsElement e) = some (leaf "EndToEndId" e.ref) := by
  simp [find, findAll, detailsElement]

/-- What the parser looks for in an entry, it finds where it was written. -/
theorem find_entry (e : Entry) (text : String) :
    find ["Amt"] (entryElement e text) = some (amountElement e.currency text) ∧
      find ["CdtDbtInd"] (entryElement e text) = some (leaf "CdtDbtInd" (indicator e)) ∧
      find ["BookgDt", "Dt"] (entryElement e text) = some (leaf "Dt" (isoformat e.day)) := by
  refine ⟨?_, ?_, ?_⟩ <;> simp [find, findAll, entryElement]

theorem textOf_indicator (minor : Prop) [Decidable minor] :
    textOf (some (leaf "CdtDbtInd" (if minor then "DBIT" else "CRDT"))) =
      some (if minor then "DBIT" else "CRDT") := by
  have hdebit : strip "DBIT" = "DBIT" := by decide +kernel
  have hcredit : strip "CRDT" = "CRDT" := by decide +kernel
  split <;> simp [textOf_leaf, hdebit, hcredit]

/-- The fields of an entry. -/
theorem lookup_entryElement (e : Entry) {text : String} (hstrip : strip text = text)
    (hne : text ≠ "") :
    (mappedFields (entryElement e text)).lookup "reference" = some (strip e.ref) ∧
      (mappedFields (entryElement e text)).lookup "amount" = some text ∧
      (mappedFields (entryElement e text)).lookup "currency" = some e.currency ∧
      (mappedFields (entryElement e text)).lookup "direction" = some (indicator e) ∧
      (mappedFields (entryElement e text)).lookup "txn_date" = some (strip (isoformat e.day)) := by
  obtain ⟨hamount, hindicator, hday⟩ := find_entry e text
  have hempty : ∀ text : String, (textOf (some (leaf "Dt" text))).getD "" = strip text ∧
      (textOf (some (leaf "EndToEndId" text))).getD "" = strip text := by
    intro text
    rw [textOf_leaf, textOf_leaf]
    split <;> simp_all
  have hreference : ((extractTxDetails (entryElement e text)).endToEndId).getD "" = strip e.ref := by
    simp only [extractTxDetails, findAll_details, List.findSome?_singleton, find_endToEndId]
    exact (hempty e.ref).2
  simp only [mappedFields, hamount, hindicator, hday, hreference, (hempty _).1,
    get_amountElement, textOf_amountElement hstrip hne, textOf_indicator, indicator, Option.getD_some, Option.bind_some]
  refine ⟨?_, ?_, ?_, ?_, ?_⟩ <;> simp [List.lookup_cons]

/-- A day begins and ends with a digit. -/
theorem strip_isoformat {day : Date} (hyear : 1 ≤ yearOf day ∧ yearOf day ≤ 9999) :
    strip (isoformat day) = isoformat day := by
  have htext := isoformat_eq hyear
  rw [htext]
  refine strip_ofList ?_ ?_
  · intro c hc
    rw [List.head?_append_of_ne_nil _ (by simp [padded])] at hc
    exact isDigit_padded c (List.mem_of_mem_head? hc)
  · intro c hc
    rw [List.getLast?_append_of_ne_nil _ (List.cons_ne_nil _ _),
      List.getLast?_cons_of_ne_nil (by simp), List.getLast?_append_of_ne_nil _ (List.cons_ne_nil _ _),
      List.getLast?_cons_of_ne_nil (by simp [padded])] at hc
    exact isDigit_padded c (List.mem_of_getLast? hc)

section

variable (lib : TextLibrary) {entries : List Entry} {currency account statementId : String}
  {exponent : Nat} {openingMinor : Int}

/-- The row of an entry that was written. -/
def EntryRead (e : Entry) (row : ParsedRow) : Prop :=
  ∃ text index, decimalText e.amountMinor e.currency "." = .ok text ∧
    row = buildRow (reading lib) (entryElement e text) index

theorem nonBlank_currency (hcurrency : currencyExponent currency = some exponent) :
    nonBlank (some currency) = some currency := by
  have hne : currency ≠ "" := by
    intro h
    have hnone : currencyExponent "" = none := by decide +kernel
    rw [h, hnone] at hcurrency
    cases hcurrency
  simp [nonBlank, Option.filter, hne]

/-- A currency that an amount is written in is known. -/
theorem currency_of_decimalText {n : Int} {text : String}
    (h : decimalText n currency "." = .ok text) :
    ∃ exponent, currencyExponent currency = some exponent := by
  obtain ⟨exponent, hexponent, -⟩ := except_bind_ok h
  exact ⟨exponent, Domain.exponentOf_ok hexponent⟩

variable {e : Entry} {row : ParsedRow}

/-- The row of an entry says what the entry says, up to blanks around its reference and the digits of
its amount. -/
theorem entryRow_iff (hcurrency : currencyExponent e.currency = some exponent)
    (hamount : 0 ≤ e.amountMinor) (hyear : 1 ≤ yearOf e.day ∧ yearOf e.day ≤ 9999)
    (h : EntryRead lib e row) :
    EntryRow (reading lib) e row ↔ strip e.ref = e.ref ∧ Kept e.amountMinor := by
  obtain ⟨text, index, htext, rfl⟩ := h
  obtain ⟨heq, hread⟩ := toMinor_of_point lib hcurrency hamount htext
  have hstrip : strip text = text := heq ▸ strip_amountText
  have hne : text ≠ "" := heq ▸ amountText_ne_empty _ _ _
  obtain ⟨href, htextOf, -, -, hday⟩ := lookup_entryElement e hstrip hne
  have hdate := strptimeDay_isoformat lib.strptime hyear
  rw [kept_iff]
  constructor
  · intro h
    have hreference := h.reference
    have hminor := h.amount
    simp only [buildRow] at hreference hminor
    rw [href, Option.some.injEq] at hreference
    rw [htextOf] at hminor
    rw [hread] at hminor
    split at hminor
    · cases hminor
    · rename_i hfits
      exact ⟨hreference, Bool.eq_false_iff.mpr hfits, by simpa using hminor⟩
  · intro h
    obtain ⟨hreference, hfits, hkept⟩ := h
    constructor
    case reference => simp only [buildRow, href, hreference]
    case amount =>
      rw [hkept] at hread hfits
      simp only [buildRow, htextOf, hread, hfits, Bool.false_eq_true, if_false]
    case day =>
      simp only [buildRow, hday, strip_isoformat hyear, Option.bind_some, reading_strptime, hdate]

/-- What the balance check adds for an entry. -/
theorem rowEntry_eq (hcurrency : currencyExponent e.currency = some exponent)
    (hamount : 0 ≤ e.amountMinor) (hkept : Kept e.amountMinor) (h : EntryRead lib e row)
    (statementCurrency : String) :
    rowEntry (reading lib) statementCurrency "." row = .ok (some (marked e)) := by
  obtain ⟨text, index, htext, rfl⟩ := h
  obtain ⟨heq, hread⟩ := toMinor_of_point lib hcurrency hamount htext
  obtain ⟨hfits, hunits⟩ := kept_iff.mp hkept
  have hstrip : strip text = text := heq ▸ strip_amountText
  have hne : text ≠ "" := heq ▸ amountText_ne_empty _ _ _
  obtain ⟨-, htextOf, hccy, hdirection, -⟩ := lookup_entryElement e hstrip hne
  have hname := nonBlank_currency hcurrency
  have hsign : markSigns.lookup ((strip (indicator e)).toUpper) =
      some (if e.direction = .dr then -1 else 1) := by
    unfold indicator
    split <;> decide +kernel
  have hminor : toMinor (reading lib) (some text) e.currency "." = .ok (some e.amountMinor) := by
    rw [hread, hfits, hunits]
    rfl
  simp only [rowEntry, rowCurrency, buildRow, htextOf, hccy, hdirection, hname, Option.getD_some,
    reading_upper, hminor, hsign, bind, Except.bind, pure, Except.pure, marked]
  split <;> simp

/-! ## Documents -/

/-- The statement with its balances and entries. -/
def statementElement (account statementId : String) (opening closing : Element)
    (body : List Element) : Element :=
  node "Stmt" ([leaf "Id" statementId, node "Acct" [node "Id" [leaf "IBAN" account]], opening,
    closing] ++ body)

/-- The parts of a document that was written. -/
structure Written (entries : List Entry) (currency account statementId : String)
    (openingMinor : Int) (openingText closingText : String) (body : List Element)
    (document : Element) : Prop where
  opening : decimalText |openingMinor| currency "." = .ok openingText
  closing : decimalText |closingMinor entries openingMinor| currency "." = .ok closingText
  elements : List.Forall₂ (fun e element => writeEntry e = .ok element) entries body
  document : document = node "BkToCstmrStmt"
    [node "GrpHdr" [leaf "MsgId" ("MSG-" ++ statementId)],
      statementElement account statementId
        (balanceElement "OPBD" openingMinor (firstDay entries) currency openingText)
        (balanceElement "CLBD" (closingMinor entries openingMinor) (lastDay entries) currency
          closingText) body]

/-- The writer writes when its amounts can be written. -/
theorem writeCamt_ok_iff {document : Element} :
    writeCamt entries currency account statementId openingMinor = .ok document ↔
      ∃ openingText closingText body, Written entries currency account statementId openingMinor
        openingText closingText body document := by
  unfold writeCamt
  constructor
  · intro h
    obtain ⟨openingText, hopening, h⟩ := except_bind_ok h
    obtain ⟨closingText, hclosing, h⟩ := except_bind_ok h
    obtain ⟨body, hbody, h⟩ := except_bind_ok h
    exact ⟨openingText, closingText, body, hopening, hclosing, Traversal.mapM_eq_ok_iff.mp hbody,
      (Except.ok.inj h).symm⟩
  · rintro ⟨openingText, closingText, body, hopening, hclosing, hbody, rfl⟩
    simp only [hopening, hclosing, Traversal.mapM_eq_ok_iff.mpr hbody, bind, Except.bind]
    rfl

/-- An entry is written with the text of its amount. -/
theorem writeEntry_ok {e : Entry} {element : Element} (h : writeEntry e = .ok element) :
    ∃ text, decimalText e.amountMinor e.currency "." = .ok text ∧ element = entryElement e text := by
  obtain ⟨text, htext, helement⟩ := except_bind_ok h
  exact ⟨text, htext, (Except.ok.inj helement).symm⟩

/-- The entries of the document are those that were written. -/
theorem findAll_entries {account statementId : String} {opening closing : Element}
    {body : List Element} (hopening : opening.isNamed "Ntry" = false)
    (hclosing : closing.isNamed "Ntry" = false) (hbody : ∀ element ∈ body, element.isNamed "Ntry") :
    findAll ["Ntry"] (statementElement account statementId opening closing body) = body := by
  have hfilter : body.filter (·.isNamed "Ntry") = body := List.filter_eq_self.mpr hbody
  have hnames : (leaf "Id" statementId).isNamed "Ntry" = false ∧
      (node "Acct" [node "Id" [leaf "IBAN" account]]).isNamed "Ntry" = false := by simp
  simp [findAll, statementElement, hopening, hclosing, hfilter, hnames]

/-- The rows of the entries. -/
theorem rows_of_elements {body : List Element}
    (h : List.Forall₂ (fun e element => writeEntry e = .ok element) entries body) (index : Nat) :
    List.Forall₂ (EntryRead lib) entries
      ((body.zipIdx index).map fun (ntry, index) => buildRow (reading lib) ntry index) := by
  induction h generalizing index with
  | nil => exact List.Forall₂.nil
  | cons hwritten _ ih =>
    obtain ⟨text, htext, rfl⟩ := writeEntry_ok hwritten
    rw [List.zipIdx_cons, List.map_cons]
    exact List.Forall₂.cons ⟨text, index, htext, rfl⟩ (ih (index + 1))

/-- A balance as it is read. -/
theorem parseBalance_balanceElement {code : String} (hcode : strip code = code) (hne : code ≠ "")
    (minor : Int) (day : Date) {currency text : String} (hstrip : strip text = text)
    (htext : text ≠ "") :
    parseBalance (balanceElement code minor day currency text) =
      ⟨code, if minor < 0 then "DBIT" else "CRDT", textOf (some (leaf "Dt" (isoformat day))),
        some currency, some text⟩ := by
  have htype : find ["Tp", "CdOrPrtry", "Cd"] (balanceElement code minor day currency text) =
      some (leaf "Cd" code) := by
    simp [find, findAll, balanceElement]
  have hindicator : find ["CdtDbtInd"] (balanceElement code minor day currency text) =
      some (leaf "CdtDbtInd" (if minor < 0 then "DBIT" else "CRDT")) := by
    simp [find, findAll, balanceElement]
  have hday : find ["Dt", "Dt"] (balanceElement code minor day currency text) =
      some (leaf "Dt" (isoformat day)) := by
    simp [find, findAll, balanceElement]
  have hamount : find ["Amt"] (balanceElement code minor day currency text) =
      some (amountElement currency text) := by
    simp [find, findAll, balanceElement]
  have hnonempty : strip code ≠ "" := by
    rw [hcode]
    exact hne
  rw [parseBalance, htype, hindicator, hday, hamount, textOf_leaf, if_neg hnonempty, hcode,
    textOf_indicator, textOf_amountElement hstrip htext, Option.bind_some, get_amountElement,
    Option.getD_some, Option.getD_some]

/-- Its balances are the opening and the closing one. -/
theorem findAll_balances {account statementId : String} {opening closing : Element}
    {body : List Element} (hopening : opening.isNamed "Bal" = true)
    (hclosing : closing.isNamed "Bal" = true)
    (hbody : ∀ element ∈ body, element.isNamed "Bal" = false) :
    findAll ["Bal"] (statementElement account statementId opening closing body) =
      [opening, closing] := by
  have hfilter : body.filter (·.isNamed "Bal") = [] :=
    List.filter_eq_nil_iff.mpr fun element helement => by simp [hbody element helement]
  simp [findAll, statementElement, hopening, hclosing, hfilter]

/-- The parser takes the statement of the document. -/
theorem parseWithHeader_statement (message account statementId : String) (opening closing : Element)
    (body : List Element) :
    ∃ root, root = node "BkToCstmrStmt" [node "GrpHdr" [leaf "MsgId" message],
        statementElement account statementId opening closing body] ∧
      parseWithHeader (reading lib) (.ok root) =
        .ok (extractHeader root (statementElement account statementId opening closing body),
          extractRows (reading lib) (statementElement account statementId opening closing body)) := by
  refine ⟨_, rfl, ?_⟩
  have hstmt : find ["Stmt"] (node "BkToCstmrStmt" [node "GrpHdr" [leaf "MsgId" message],
      statementElement account statementId opening closing body]) =
        some (statementElement account statementId opening closing body) := by
    simp [find, findAll, statementElement]
  simp [parseWithHeader, hstmt]

/-- The balances and the rows of a document, as the parser has them. -/
theorem parse_document {openingText closingText : String} {body : List Element} {document : Element}
    (hcurrency : currencyExponent currency = some exponent)
    (h : Written entries currency account statementId openingMinor openingText closingText body
      document) :
    ∃ header rows, parseWithHeader (reading lib) (.ok document) = .ok (header, rows) ∧
      List.Forall₂ (EntryRead lib) entries rows ∧
      ∃ openingDay closingDay, (Header.camt header).stated = some
        (⟨if openingMinor < 0 then "DBIT" else "CRDT", openingDay, currency, some openingText⟩,
          ⟨if closingMinor entries openingMinor < 0 then "DBIT" else "CRDT", closingDay, currency,
            some closingText⟩) := by
  obtain ⟨hopening, hclosing, hbody, rfl⟩ := h
  have hnamed : ∀ element ∈ body,
      element.isNamed "Ntry" = true ∧ element.isNamed "Bal" = false := by
    refine Traversal.forall_of_mapM (Traversal.mapM_eq_ok_iff.mpr hbody) fun e _ element hwritten => ?_
    obtain ⟨text, -, rfl⟩ := writeEntry_ok hwritten
    simp [entryElement]
  have htext : ∀ {minor : Int} {text : String}, decimalText |minor| currency "." = .ok text →
      strip text = text ∧ text ≠ "" := by
    intro minor text h
    rw [(toMinor_of_point lib hcurrency (abs_nonneg minor) h).1]
    exact ⟨strip_amountText, amountText_ne_empty _ _ _⟩
  obtain ⟨root, hroot, hparse⟩ := parseWithHeader_statement lib ("MSG-" ++ statementId) account
    statementId (balanceElement "OPBD" openingMinor (firstDay entries) currency openingText)
    (balanceElement "CLBD" (closingMinor entries openingMinor) (lastDay entries) currency closingText)
    body
  rw [← hroot]
  refine ⟨_, _, hparse, ?_, textOf (some (leaf "Dt" (isoformat (firstDay entries)))),
    textOf (some (leaf "Dt" (isoformat (lastDay entries)))), ?_⟩
  · rw [extractRows, findAll_entries (by simp [balanceElement]) (by simp [balanceElement])
      fun element helement => (hnamed element helement).1]
    exact rows_of_elements lib hbody 1
  · have hcodes : strip "OPBD" = "OPBD" ∧ strip "CLBD" = "CLBD" := by decide +kernel
    obtain ⟨hopeningStrip, hopeningText⟩ := htext hopening
    obtain ⟨hclosingStrip, hclosingText⟩ := htext hclosing
    have hname := nonBlank_currency hcurrency
    simp only [Header.stated, extractHeader]
    rw [findAll_balances (by simp [balanceElement]) (by simp [balanceElement])
        fun element helement => (hnamed element helement).2, List.map_cons, List.map_singleton,
      parseBalance_balanceElement hcodes.1 (by decide) _ _ hopeningStrip hopeningText,
      parseBalance_balanceElement hcodes.2 (by decide) _ _ hclosingStrip hclosingText]
    simp [camtOpening, camtClosing, Camt053.Balance.stated, hname]

/-! ## The law -/

/-- A balance with its sign, as the balance check reads it. -/
theorem toMinor_balance (hcurrency : currencyExponent currency = some exponent) {minor : Int}
    {text : String} (h : decimalText |minor| currency "." = .ok text) :
    toMinor (reading lib) (some text) currency "." =
      if overflows (keptUnits |minor| : Rat) then .error (.arithmetic "Overflow")
      else .ok (some (keptUnits |minor|)) :=
  (toMinor_of_point lib hcurrency (abs_nonneg minor) h).2

/-- A balance is stated with its sign as an indicator. -/
theorem statedMinor_eq (minor : Int) :
    keptUnits |minor| * (markSigns.lookup (if minor < 0 then "DBIT" else "CRDT")).getD 1 =
      statedMinor minor := by
  have hdebit : markSigns.lookup "DBIT" = some (-1) := by decide
  have hcredit : markSigns.lookup "CRDT" = some 1 := by decide
  unfold statedMinor
  split <;> simp [hdebit, hcredit]

/-- What the balance check adds for the entries. -/
theorem rowEntries_eq {rows : List ParsedRow} (hexponent : currencyExponent currency = some exponent)
    (hcurrency : ∀ e ∈ entries, e.currency = currency) (hamounts : ∀ e ∈ entries, 0 ≤ e.amountMinor)
    (hkept : ∀ e ∈ entries, Kept e.amountMinor) (hread : List.Forall₂ (EntryRead lib) entries rows) :
    List.Forall₂ (fun e row => rowEntry (reading lib) currency "." row = .ok (some (marked e)))
      entries rows :=
  Traversal.forall₂_of_mem hread fun e he _ hrow =>
    rowEntry_eq lib (hcurrency e he ▸ hexponent) (hamounts e he) (hkept e he) hrow currency

/-- The check of a document whose balances and amounts can be read: it balances when the sums
agree. -/
theorem ingestionCheck_eq {header : StatementHeader} {rows : List ParsedRow}
    {openingText closingText : String} {openingDay closingDay : Option String}
    (hcurrency : currencyExponent currency = some exponent)
    (hopening : decimalText |openingMinor| currency "." = .ok openingText)
    (hclosing : decimalText |closingMinor entries openingMinor| currency "." = .ok closingText)
    (hstated : (Header.camt header).stated = some
      (⟨if openingMinor < 0 then "DBIT" else "CRDT", openingDay, currency, some openingText⟩,
        ⟨if closingMinor entries openingMinor < 0 then "DBIT" else "CRDT", closingDay, currency,
          some closingText⟩))
    (hrows : List.Forall₂ (fun e row =>
      rowEntry (reading lib) currency "." row = .ok (some (marked e))) entries rows) :
    (∃ check, ingestionCheck (reading lib) (.camt header) rows "." = .ok (some check) ∧
        check.balanced = true) ↔
      overflows (keptUnits |openingMinor| : Rat) = false ∧
        overflows (keptUnits |closingMinor entries openingMinor| : Rat) = false ∧
        statedMinor openingMinor + (entries.map marked).sum =
          statedMinor (closingMinor entries openingMinor) := by
  have hentries : rows.mapM (rowEntry (reading lib) currency ".") =
      .ok ((entries.map marked).map some) := by
    rw [Traversal.mapM_eq_ok_iff, List.forall₂_map_right_iff, List.forall₂_map_right_iff]
    exact hrows.flip
  have hminor := toMinor_balance lib hcurrency hopening
  have hminor' := toMinor_balance lib hcurrency hclosing
  cases hfirst : overflows (keptUnits |openingMinor| : Rat) with
  | true =>
    rw [hfirst] at hminor
    simp [ingestionCheck, statementBalances, hstated, hminor, bind, Except.bind]
  | false =>
    rw [hfirst] at hminor
    cases hlast : overflows (keptUnits |closingMinor entries openingMinor| : Rat) with
    | true =>
      rw [hlast] at hminor'
      simp [ingestionCheck, statementBalances, hstated, hminor, hminor', bind, Except.bind]
    | false =>
      rw [hlast] at hminor'
      obtain ⟨check, hcheck, hbalanced⟩ := ingestionCheck_ok hstated hminor hminor' hentries
      simp only [hcheck, Except.ok.injEq, Option.some.injEq, exists_eq_left', true_and, hbalanced,
        statedMinor_eq]

/-- A document that is read back agrees with its entries. -/
theorem agrees_of_readsBack (hcurrency : ∀ e ∈ entries, e.currency = currency)
    (hamounts : ∀ e ∈ entries, 0 ≤ e.amountMinor)
    (hdays : ∀ e ∈ entries, 1 ≤ yearOf e.day ∧ yearOf e.day ≤ 9999)
    (h : ReadsBack (reading lib) entries currency account statementId openingMinor) :
    Agrees entries currency openingMinor := by
  obtain ⟨document, header, rows, check, hwrite, hparse, hrows, hcheck⟩ := h
  obtain ⟨openingText, closingText, body, hwritten⟩ := writeCamt_ok_iff.mp hwrite
  obtain ⟨exponent, hexponent⟩ := currency_of_decimalText hwritten.opening
  obtain ⟨header', rows', hparse', hread, openingDay, closingDay, hstated⟩ :=
    parse_document lib hexponent hwritten
  cases hparse.symm.trans hparse'
  have hboth := Traversal.forall₂_and hread hrows
  have hkept : ∀ e ∈ entries, strip e.ref = e.ref ∧ Kept e.amountMinor :=
    (Traversal.forall_mem_of_forall₂ hboth) fun e he row h =>
      (entryRow_iff lib (hcurrency e he ▸ hexponent) (hamounts e he) (hdays e he) h.1).mp h.2
  obtain ⟨hopening, hclosing, hsums⟩ :=
    (ingestionCheck_eq lib hexponent hwritten.opening hwritten.closing hstated
      (rowEntries_eq lib hexponent hcurrency hamounts (fun e he => (hkept e he).2) hread)).mp
      ⟨check, hcheck⟩
  exact ⟨by simp [hexponent], fun e he => (hkept e he).1, fun e he => (hkept e he).2, hopening,
    hclosing, hsums⟩

theorem readsBack_of_agrees (hcurrency : ∀ e ∈ entries, e.currency = currency)
    (hamounts : ∀ e ∈ entries, 0 ≤ e.amountMinor)
    (hdays : ∀ e ∈ entries, 1 ≤ yearOf e.day ∧ yearOf e.day ≤ 9999)
    (h : Agrees entries currency openingMinor) :
    ReadsBack (reading lib) entries currency account statementId openingMinor := by
  obtain ⟨exponent, hexponent⟩ := Option.isSome_iff_exists.mp h.currency
  obtain ⟨body, hbody⟩ : ∃ body, entries.mapM writeEntry = .ok body := by
    refine Traversal.exists_mapM_ok fun e he => ?_
    have htext := decimalText_of_not_overflows (hcurrency e he ▸ hexponent) (hamounts e he)
      (kept_iff.mp (h.amounts e he)).1 '.'
    rw [← point_eq_singleton] at htext
    exact ⟨_, by rw [writeEntry, htext]; rfl⟩
  have hopening := decimalText_of_not_overflows hexponent (abs_nonneg openingMinor) h.opening '.'
  have hclosing := decimalText_of_not_overflows hexponent
    (abs_nonneg (closingMinor entries openingMinor)) h.closing '.'
  rw [← point_eq_singleton] at hopening hclosing
  have hwritten : Written entries currency account statementId openingMinor _ _ body _ :=
    ⟨hopening, hclosing, Traversal.mapM_eq_ok_iff.mp hbody, rfl⟩
  obtain ⟨header, rows, hparse, hread, openingDay, closingDay, hstated⟩ :=
    parse_document lib hexponent hwritten
  obtain ⟨check, hcheck⟩ :=
    (ingestionCheck_eq lib hexponent hopening hclosing hstated
      (rowEntries_eq lib hexponent hcurrency hamounts h.amounts hread)).mpr
      ⟨h.opening, h.closing, h.sums⟩
  refine ⟨_, header, rows, check, writeCamt_ok_iff.mpr ⟨_, _, _, hwritten⟩, hparse, ?_, hcheck⟩
  exact Traversal.forall₂_of_mem hread fun e he row hrow =>
    (entryRow_iff lib (hcurrency e he ▸ hexponent) (hamounts e he) (hdays e he) hrow).mpr
      ⟨h.references e he, h.amounts e he⟩

end

theorem statedMinor_of_kept {minor : Int} (h : Kept |minor|) : statedMinor minor = minor := by
  unfold statedMinor
  rw [h.keptUnits_eq]
  split
  · rw [abs_of_neg (by assumption), neg_neg]
  · rw [abs_of_nonneg (not_lt.mp (by assumption))]

/-- A reversal counts against its mark. -/
theorem signed_eq (e : Entry) : signed e = if e.reversal then -marked e else marked e := by
  unfold signed marked
  cases e.direction <;> cases e.reversal <;> simp

/-- Balances that the context keeps agree with the entries when the reversals cancel out. -/
theorem sums_agree_iff {entries : List Entry} {openingMinor : Int} (hopening : Kept |openingMinor|)
    (hclosing : Kept |closingMinor entries openingMinor|) :
    statedMinor openingMinor + (entries.map marked).sum =
        statedMinor (closingMinor entries openingMinor) ↔
      ((entries.filter (·.reversal)).map signed).sum = 0 := by
  have hsums : (entries.map marked).sum =
      (entries.map signed).sum - 2 * ((entries.filter (·.reversal)).map signed).sum := by
    clear hopening hclosing
    induction entries with
    | nil => rfl
    | cons e entries ih =>
      have hsigned := signed_eq e
      cases hreversal : e.reversal <;> simp [hreversal] at hsigned ⊢ <;> rw [ih] <;> omega
  rw [statedMinor_of_kept hopening, statedMinor_of_kept hclosing, closingMinor, hsums]
  omega

/-- **A document balances exactly when the entries and the balances are read back and their sums
agree.** -/
theorem writeCamt_balanced_iff (lib : TextLibrary) (entries : List Entry)
    (currency account statementId : String) (openingMinor : Int)
    (hcurrency : ∀ e ∈ entries, e.currency = currency)
    (hamounts : ∀ e ∈ entries, 0 ≤ e.amountMinor)
    (hdays : ∀ e ∈ entries, 1 ≤ yearOf e.day ∧ yearOf e.day ≤ 9999) :
    ReadsBack (reading lib) entries currency account statementId openingMinor ↔
      Agrees entries currency openingMinor :=
  ⟨agrees_of_readsBack lib hcurrency hamounts hdays, readsBack_of_agrees lib hcurrency hamounts hdays⟩

theorem writeCamt_balanced_iff_onePayment :
    ReadsBack (reading amountLibrary) [onePayment false] "INR" "IN01" "S1" mt940DefaultOpeningMinor ↔
      Agrees [onePayment false] "INR" mt940DefaultOpeningMinor :=
  writeCamt_balanced_iff amountLibrary [onePayment false] "INR" "IN01" "S1" mt940DefaultOpeningMinor
    (by simp [onePayment]) (by simp [onePayment]) (by
      intro e he
      obtain rfl := List.mem_singleton.mp he
      decide)

/-- The payment taken back: the closing balance goes down and the entry is a credit. -/
theorem reversal_unbalanced :
    ¬ ∀ (lib : TextLibrary) (entries : List Entry) (currency account statementId : String)
      (openingMinor : Int), (currencyExponent currency).isSome →
      (∀ e ∈ entries, e.currency = currency) → (∀ e ∈ entries, 0 ≤ e.amountMinor) →
      (∀ e ∈ entries, 1 ≤ yearOf e.day ∧ yearOf e.day ≤ 9999) →
      ReadsBack (reading lib) entries currency account statementId openingMinor := by
  intro h
  have hcurrency : ∀ e ∈ [onePayment true], e.currency = "INR" := by simp [onePayment]
  have hamounts : ∀ e ∈ [onePayment true], 0 ≤ e.amountMinor := by simp [onePayment]
  have hdays : ∀ e ∈ [onePayment true], 1 ≤ yearOf e.day ∧ yearOf e.day ≤ 9999 := by
    intro e he
    obtain rfl := List.mem_singleton.mp he
    decide
  have hread := h amountLibrary [onePayment true] "INR" "IN01" "S1" mt940DefaultOpeningMinor
    (by decide +kernel) hcurrency hamounts hdays
  have hsums := (agrees_of_readsBack amountLibrary hcurrency hamounts hdays hread).sums
  rw [sums_agree_iff (kept_of_abs_le (by decide)) (kept_of_abs_le (by decide))] at hsums
  revert hsums
  decide

end Recon.Samples.Camt
