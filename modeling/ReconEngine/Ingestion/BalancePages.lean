import ReconEngine.Ingestion.Balances

/-!
# Statements of several pages

A file may hold several pages of one account, each with an opening and a closing balance, and each
opening with what the page before closed with. The header keeps one opening and one closing balance,
those that come last, while the rows of all pages are added up between them.

**The law** (`pages_balanced_iff`): the file balances exactly when the last page opens with what the
first page opened with. The proof adds the pages up: their closing balances telescope.

**What it does not establish.** That the entries of the single pages balance: two pages whose errors
cancel out are one file that balances. The check has no notion of a page.
-/

set_option autoImplicit false

namespace Recon

open Mt940 (LexedField)

/-! ## The check of lexed fields -/

/-- The check of the fields of a file. -/
def fieldsCheck (lib : TextLibrary) (decimalSeparator : String) (fields : List LexedField) :
    Parsing (Option BalanceCheck) := do
  let header ← Mt940.extractHeader fields
  (ingestionCheck lib (.mt940 header) (Mt940.extractRows lib decimalSeparator fields)
    decimalSeparator).mapError .raised

/-- The balance check that ingesting an MT940 file makes. -/
def mt940Check (lib : TextLibrary) (text : String) (config : BankFormats) :
    Parsing (Option BalanceCheck) := do
  let (header, rows) ← Mt940.parseWithHeader lib text config
  match config.mt940 with
  | none => return none
  | some format =>
    (ingestionCheck lib (.mt940 header) rows format.decimalSeparator).mapError .raised

/-- The check of a text is that of its fields. -/
theorem mt940Check_of_lex {lib : TextLibrary} {text : String} {config : BankFormats}
    {format : Mt940Format} {fields : List LexedField} (hconfig : config.mt940 = some format)
    (hlex : Mt940.lex text.toList = .ok fields) :
    mt940Check lib text config = fieldsCheck lib format.decimalSeparator fields := by
  unfold mt940Check fieldsCheck
  rw [Mt940.parseWithHeader_of_lex lib hconfig hlex]
  cases Mt940.extractHeader fields with
  | error e => rfl
  | ok header => simp [Except.map, bind, Except.bind, hconfig]

/-! ## Entries of fields -/

section

variable (lib : TextLibrary) (statementCurrency decimalSeparator : String)

/-- The signed amount of a statement line. -/
def fieldEntry (field : LexedField) : Except ReconError (Option Int) :=
  rowEntry lib statementCurrency decimalSeparator (Mt940.buildRow lib decimalSeparator field [])

/-- The narration has no part in the fields that give the amount of a row. -/
theorem lookup_buildRow (field : LexedField) (narration : List Char) (key : String)
    (hkey : (key == "narration") = false) :
    (Mt940.buildRow lib decimalSeparator field narration).mapped.lookup key =
      (Mt940.buildRow lib decimalSeparator field []).mapped.lookup key := by
  unfold Mt940.buildRow
  cases Mt940.parseField61 field.content with
  | none => rfl
  | some parsed => simp [List.lookup_cons, hkey]

/-- The entry of a row is that of its statement line. -/
theorem rowEntry_buildRow (field : LexedField) (narration : List Char) :
    rowEntry lib statementCurrency decimalSeparator
        (Mt940.buildRow lib decimalSeparator field narration) =
      fieldEntry lib statementCurrency decimalSeparator field := by
  have hlookup := lookup_buildRow lib decimalSeparator field narration
  simp only [fieldEntry, rowEntry, rowCurrency, hlookup "direction" (by simp),
    hlookup "currency" (by simp), hlookup "amount" (by simp)]

theorem statementLines_fields (fields : List LexedField) :
    (Mt940.statementLines fields).map (·.1) = fields.filter (·.tag = "61") := by
  have hfst : (Mt940.withNext fields).map (·.1) = fields := by
    induction fields with
    | nil => rfl
    | cons field fields ih => simp [Mt940.withNext, ih]
  conv_rhs => rw [← hfst]
  rw [Mt940.statementLines, List.filter_map]
  rfl

theorem mapM_rowEntry (fields : List LexedField) :
    (Mt940.extractRows lib decimalSeparator fields).mapM
        (rowEntry lib statementCurrency decimalSeparator) =
      (fields.filter (·.tag = "61")).mapM (fieldEntry lib statementCurrency decimalSeparator) := by
  have hrows : (rowEntry lib statementCurrency decimalSeparator ∘
        fun entry : LexedField × Option LexedField => Mt940.buildRow lib decimalSeparator entry.1
          (stripChars (Mt940.narrativeOf entry.2))) =
      fieldEntry lib statementCurrency decimalSeparator ∘ (·.1) := by
    ext1 entry
    rw [Function.comp_apply, Function.comp_apply, rowEntry_buildRow]
  rw [Mt940.extractRows_eq, ← statementLines_fields, List.mapM_map, List.mapM_map, hrows]

end

/-! ## Pages -/

/-- A page: fields with one opening and one closing balance among them. -/
structure Page where
  before : List LexedField
  opening : LexedField
  entries : List LexedField
  closing : LexedField
  after : List LexedField
  openingTag : opening.tag ∈ Mt940.openingTags
  closingTag : closing.tag ∈ Mt940.closingTags
  others : ∀ field ∈ before ++ entries ++ after, ¬ field.IsBalance

def Page.fields (page : Page) : List LexedField :=
  page.before ++ page.opening :: page.entries ++ page.closing :: page.after

/-- The balances that a header states. -/
def statedOf (header : Mt940.StatementHeader) : Option Mt940.Balance × Option Mt940.Balance :=
  (header.openingBalance, header.closingBalance)

/-- A field that is no balance leaves the balances. -/
theorem headerField_other (header : Mt940.StatementHeader) {field : LexedField}
    (h : ¬ field.IsBalance) :
    ∃ header', Mt940.headerField header field = .ok header' ∧ statedOf header' = statedOf header := by
  obtain ⟨hopening, hclosing⟩ := not_or.mp h
  unfold Mt940.headerField
  split_ifs <;> exact ⟨_, rfl, rfl⟩

theorem foldlM_headerField_others {fields : List LexedField} (h : ∀ field ∈ fields, ¬ field.IsBalance)
    (header : Mt940.StatementHeader) :
    ∃ header', fields.foldlM Mt940.headerField header = .ok header' ∧
      statedOf header' = statedOf header := by
  induction fields generalizing header with
  | nil => exact ⟨header, rfl, rfl⟩
  | cons field fields ih =>
    obtain ⟨next, hnext, hsame⟩ := headerField_other header (h field List.mem_cons_self)
    obtain ⟨last, hlast, hsame'⟩ := ih (fun f hf => h f (List.mem_cons_of_mem _ hf)) next
    refine ⟨last, ?_, hsame'.trans hsame⟩
    rw [List.foldlM_cons, hnext]
    exact hlast

/-- A later opening balance takes the place of an earlier one. -/
theorem headerField_opening (header : Mt940.StatementHeader) {field : LexedField}
    (h : field.tag ∈ Mt940.openingTags) :
    Mt940.headerField header field = (Mt940.parseBalance field.tag field.content).map fun b =>
      { header with openingBalance := some b } := by
  have hclosing : field.tag ≠ "20" ∧ field.tag ≠ "25" ∧ field.tag ≠ "28C" := by
    simp only [Mt940.openingTags, List.mem_cons, List.not_mem_nil, or_false] at h
    obtain h | h := h <;> simp [h]
  simp [Mt940.headerField, hclosing, h]

theorem headerField_closing (header : Mt940.StatementHeader) {field : LexedField}
    (h : field.tag ∈ Mt940.closingTags) :
    Mt940.headerField header field = (Mt940.parseBalance field.tag field.content).map fun b =>
      { header with closingBalance := some b } := by
  have hopening : field.tag ≠ "20" ∧ field.tag ≠ "25" ∧ field.tag ≠ "28C" ∧
      field.tag ∉ Mt940.openingTags := by
    simp only [Mt940.closingTags, List.mem_cons, List.not_mem_nil, or_false] at h
    obtain h | h := h <;> simp [h, Mt940.openingTags]
  simp [Mt940.headerField, hopening, h]

theorem parseBalance_ok (tag : String) {content : List Char} (h : content ≠ []) :
    ∃ b, Mt940.parseBalance tag content = .ok b := by
  cases content with
  | nil => exact absurd rfl h
  | cons mark rest => exact ⟨_, rfl⟩

/-- The balances of a page that can be read. -/
theorem balances_of_extractHeader {page : Page} {header : Mt940.StatementHeader}
    (h : Mt940.extractHeader page.fields = .ok header) :
    ∃ opening closing, Mt940.parseBalance page.opening.tag page.opening.content = .ok opening ∧
      Mt940.parseBalance page.closing.tag page.closing.content = .ok closing := by
  obtain ⟨-, hfilled⟩ | ⟨hraised, -⟩ := Mt940.foldlM_headerField_cases page.fields {}
  · have hopening := hfilled page.opening (by simp [Page.fields]) (Or.inl page.openingTag)
    have hclosing := hfilled page.closing (by simp [Page.fields]) (Or.inr page.closingTag)
    obtain ⟨opening, ho⟩ := parseBalance_ok page.opening.tag hopening
    obtain ⟨closing, hc⟩ := parseBalance_ok page.closing.tag hclosing
    exact ⟨opening, closing, ho, hc⟩
  · rw [Mt940.extractHeader, hraised] at h
    cases h

/-- A page states its own balances, whatever the header held before it. -/
theorem foldlM_headerField_page {page : Page} {opening closing : Mt940.Balance}
    (hopening : Mt940.parseBalance page.opening.tag page.opening.content = .ok opening)
    (hclosing : Mt940.parseBalance page.closing.tag page.closing.content = .ok closing)
    (header : Mt940.StatementHeader) :
    ∃ header', page.fields.foldlM Mt940.headerField header = .ok header' ∧
      statedOf header' = (some opening, some closing) := by
  have hbefore : ∀ field ∈ page.before, ¬ field.IsBalance :=
    fun field hfield => page.others field (by simp [hfield])
  have hentries : ∀ field ∈ page.entries, ¬ field.IsBalance :=
    fun field hfield => page.others field (by simp [hfield])
  have hafter : ∀ field ∈ page.after, ¬ field.IsBalance :=
    fun field hfield => page.others field (by simp [hfield])
  obtain ⟨h₁, hrun₁, -⟩ := foldlM_headerField_others hbefore header
  obtain ⟨h₂, hrun₂, hstated₂⟩ := foldlM_headerField_others hentries
    { h₁ with openingBalance := some opening }
  obtain ⟨h₃, hrun₃, hstated₃⟩ := foldlM_headerField_others hafter
    { h₂ with closingBalance := some closing }
  refine ⟨h₃, ?_, ?_⟩
  · rw [Page.fields, List.append_assoc, List.foldlM_append, hrun₁]
    change List.foldlM Mt940.headerField h₁ (page.opening :: (page.entries ++ _)) = _
    rw [List.foldlM_cons, headerField_opening h₁ page.openingTag, hopening]
    change List.foldlM Mt940.headerField { h₁ with openingBalance := some opening }
      (page.entries ++ _) = _
    rw [List.foldlM_append, hrun₂]
    change List.foldlM Mt940.headerField h₂ (page.closing :: page.after) = _
    rw [List.foldlM_cons, headerField_closing h₂ page.closingTag, hclosing]
    exact hrun₃
  · rw [hstated₃]
    exact Prod.ext (congrArg (·.1) hstated₂) rfl

/-! ## Checks of pages -/

/-- A page that balances on its own, with its check. -/
def BalancesAlone (lib : TextLibrary) (decimalSeparator : String) (page : Page)
    (check : BalanceCheck) : Prop :=
  fieldsCheck lib decimalSeparator page.fields = .ok (some check) ∧ check.balanced = true

/-- What a check of fields is made of. -/
theorem fieldsCheck_ok_iff {lib : TextLibrary} {decimalSeparator : String}
    {fields : List LexedField} {check : BalanceCheck} :
    fieldsCheck lib decimalSeparator fields = .ok (some check) ↔
      ∃ header balances entries, Mt940.extractHeader fields = .ok header ∧
        statementBalances lib (.mt940 header) decimalSeparator = .ok (some balances) ∧
        (fields.filter (·.tag = "61")).mapM
          (fieldEntry lib balances.currency decimalSeparator) = .ok entries ∧
        countEntries { balances } entries = check := by
  unfold fieldsCheck ingestionCheck
  cases hheader : Mt940.extractHeader fields with
  | error e => simp [bind, Except.bind]
  | ok header =>
    cases hbalances : statementBalances lib (.mt940 header) decimalSeparator with
    | error e => simp [hbalances, bind, Except.bind, Except.mapError]
    | ok found =>
      cases found with
      | none => simp [hbalances, bind, Except.bind, Except.mapError, pure, Except.pure]
      | some balances =>
        have hone : ∀ balances', statementBalances lib (.mt940 header) decimalSeparator =
            .ok (some balances') ↔ balances' = balances := by
          simp [hbalances, eq_comm]
        simp only [Except.ok.injEq, exists_and_left, exists_eq_left, exists_eq_left', hone]
        simp only [bind, Except.bind, hbalances, checkStatement_eq, mapM_rowEntry]
        cases (fields.filter (·.tag = "61")).mapM
            (fieldEntry lib balances.currency decimalSeparator) <;>
          simp [Except.map, Except.mapError, Functor.map]

/-- The amounts of a statement depend on the balances that its header states. -/
theorem statementBalances_of_stated {lib : TextLibrary} {decimalSeparator : String}
    {header header' : Mt940.StatementHeader} {balances : StatementBalances}
    (hsame : statedOf header' = statedOf header)
    (h : statementBalances lib (.mt940 header) decimalSeparator = .ok (some balances)) :
    ∃ balances', statementBalances lib (.mt940 header') decimalSeparator = .ok (some balances') ∧
      balances'.currency = balances.currency ∧ balances'.openingMinor = balances.openingMinor ∧
      balances'.closingMinor = balances.closingMinor := by
  have hstated : (Header.mt940 header').stated = (Header.mt940 header).stated := by
    obtain ⟨hopening, hclosing⟩ := Prod.mk.inj hsame
    simp [Header.stated, hopening, hclosing]
  unfold statementBalances at h ⊢
  rw [hstated]
  cases hpair : (Header.mt940 header).stated with
  | none => simp [hpair] at h
  | some pair =>
    simp only [hpair] at h ⊢
    cases ho : toMinor lib pair.1.amountRaw pair.1.currency decimalSeparator with
    | error e => simp [ho, bind, Except.bind] at h
    | ok o =>
      cases hc : toMinor lib pair.2.amountRaw pair.2.currency decimalSeparator with
      | error e => simp [ho, hc, bind, Except.bind] at h
      | ok c =>
        cases o <;> cases c <;>
          simp only [ho, hc, bind, Except.bind, pure, Except.pure, Except.ok.injEq,
            Option.some.injEq, reduceCtorEq] at h ⊢
        subst h
        exact ⟨_, rfl, rfl, rfl, rfl⟩

section

variable {lib : TextLibrary} {decimalSeparator currency : String} {pages : List Page}
  {checks : List BalanceCheck}

/-- The entries of pages in one currency are those of each page. -/
theorem entries_pages (h : List.Forall₂ (BalancesAlone lib decimalSeparator) pages checks)
    (hcurrency : ∀ check ∈ checks, check.balances.currency = currency) :
    ∃ entries, ((pages.flatMap Page.fields).filter (·.tag = "61")).mapM
        (fieldEntry lib currency decimalSeparator) = .ok entries ∧
      (entries.filterMap id).sum = (checks.map (·.netEntriesMinor)).sum := by
  induction h with
  | nil => exact ⟨[], rfl, rfl⟩
  | @cons page check pages checks hpage _ ih =>
    obtain ⟨rest, hrest, hsum⟩ := ih fun c hc => hcurrency c (List.mem_cons_of_mem _ hc)
    obtain ⟨header, balances, entries, -, -, hentries, rfl⟩ := fieldsCheck_ok_iff.mp hpage.1
    have hsame := hcurrency _ List.mem_cons_self
    rw [countEntries_balances] at hsame
    rw [hsame] at hentries
    refine ⟨entries ++ rest, ?_, ?_⟩
    · rw [List.flatMap_cons, List.filter_append]
      exact Traversal.mapM_append_ok hentries hrest
    · rw [List.filterMap_append, List.sum_append, hsum, List.map_cons, List.sum_cons,
        countEntries_net, zero_add]

/-- After all pages the header states what the last page states. -/
theorem header_pages {last : BalanceCheck}
    (h : List.Forall₂ (BalancesAlone lib decimalSeparator) pages checks)
    (hlast : checks.getLast? = some last) (header : Mt940.StatementHeader) :
    ∃ header' alone, (pages.flatMap Page.fields).foldlM Mt940.headerField header = .ok header' ∧
      statedOf header' = statedOf alone ∧
      statementBalances lib (.mt940 alone) decimalSeparator = .ok (some last.balances) := by
  induction h generalizing header with
  | nil => cases hlast
  | @cons page check pages checks hpage _ ih =>
    obtain ⟨alone, balances, entries, halone, hbalances, -, rfl⟩ := fieldsCheck_ok_iff.mp hpage.1
    obtain ⟨opening, closing, ho, hc⟩ := balances_of_extractHeader halone
    obtain ⟨next, hnext, hstated⟩ := foldlM_headerField_page ho hc header
    rw [List.flatMap_cons, List.foldlM_append, hnext]
    cases checks with
    | nil =>
      rename_i hpages
      rw [List.forall₂_nil_right_iff] at hpages
      subst hpages
      cases hlast
      obtain ⟨own, hown, hstated'⟩ := foldlM_headerField_page ho hc {}
      rw [← Mt940.extractHeader, halone] at hown
      cases hown
      exact ⟨next, alone, rfl, hstated.trans hstated'.symm, by simpa using hbalances⟩
    | cons check' checks =>
      rw [List.getLast?_cons_cons] at hlast
      exact ih hlast next

/-- Pages one after the other state the balances of the last one, and have the entries of all. -/
theorem fieldsCheck_pages {last : BalanceCheck}
    (hchecked : List.Forall₂ (BalancesAlone lib decimalSeparator) pages checks)
    (hcurrency : ∀ check ∈ checks, check.balances.currency = currency)
    (hlast : checks.getLast? = some last) :
    ∃ check, fieldsCheck lib decimalSeparator (pages.flatMap Page.fields) = .ok (some check) ∧
      check.balances.openingMinor = last.balances.openingMinor ∧
      check.balances.closingMinor = last.balances.closingMinor ∧
      check.netEntriesMinor = (checks.map (·.netEntriesMinor)).sum := by
  obtain ⟨header, alone, hheader, hstated, hbalances⟩ := header_pages hchecked hlast {}
  obtain ⟨balances, hfile, hsame, hopening, hclosing⟩ :=
    statementBalances_of_stated hstated hbalances
  obtain ⟨entries, hentries, hsum⟩ := entries_pages hchecked hcurrency
  rw [← hcurrency last (List.mem_of_getLast? hlast), ← hsame] at hentries
  refine ⟨countEntries { balances } entries,
    fieldsCheck_ok_iff.mpr ⟨header, balances, entries, hheader, hfile, hentries, rfl⟩, ?_, ?_, ?_⟩
  · rw [countEntries_balances, hopening]
  · rw [countEntries_balances, hclosing]
  · rw [countEntries_net, zero_add, hsum]

end

/-! ## Chains of pages -/

/-- Pages of one currency that balance one by one, each opening with what the one before closed
with. -/
structure Chained (lib : TextLibrary) (decimalSeparator : String) (pages : List Page)
    (checks : List BalanceCheck) (currency : String) : Prop where
  checked : List.Forall₂ (BalancesAlone lib decimalSeparator) pages checks
  currency : ∀ check ∈ checks, check.balances.currency = currency
  chained : checks.IsChain fun a b => b.balances.openingMinor = a.balances.closingMinor

/-- A check balances when the entries make up the difference. -/
theorem balanced_iff {check : BalanceCheck} :
    check.balanced = true ↔
      check.balances.closingMinor = check.balances.openingMinor + check.netEntriesMinor := by
  simp [BalanceCheck.balanced, BalanceCheck.differenceMinor, BalanceCheck.computedClosingMinor,
    sub_eq_zero]

/-- What the last page closes with is what the first opened with and all the entries. -/
theorem closing_telescopes {first last : BalanceCheck} {checks : List BalanceCheck}
    (hbalanced : ∀ check ∈ first :: checks, check.balanced = true)
    (hchained : (first :: checks).IsChain fun a b =>
      b.balances.openingMinor = a.balances.closingMinor)
    (hlast : (first :: checks).getLast? = some last) :
    last.balances.closingMinor =
      first.balances.openingMinor + ((first :: checks).map (·.netEntriesMinor)).sum := by
  have hfirst := balanced_iff.mp (hbalanced first List.mem_cons_self)
  induction checks generalizing first with
  | nil =>
    cases hlast
    simpa using hfirst
  | cons second checks ih =>
    rw [List.isChain_cons_cons] at hchained
    rw [List.getLast?_cons_cons] at hlast
    have hrest := ih (fun check hcheck => hbalanced check (List.mem_cons_of_mem _ hcheck))
      hchained.2 hlast
      (balanced_iff.mp (hbalanced second (List.mem_cons_of_mem _ List.mem_cons_self)))
    rw [List.map_cons, List.sum_cons, hrest, hchained.1, hfirst]
    ring

/-- Pages that balance alone, each with its own check. -/
theorem balanced_of_forall₂ {lib : TextLibrary} {decimalSeparator : String} {pages : List Page}
    {checks : List BalanceCheck}
    (h : List.Forall₂ (BalancesAlone lib decimalSeparator) pages checks) :
    ∀ check ∈ checks, check.balanced = true := by
  induction h with
  | nil => simp
  | cons hpage _ ih =>
    intro check hcheck
    obtain rfl | hcheck := List.mem_cons.mp hcheck
    · exact hpage.2
    · exact ih check hcheck

/-- **The file balances exactly when the last page opens with what the first opened with.** -/
theorem pages_balanced_iff (lib : TextLibrary) (text : String) (config : BankFormats)
    (format : Mt940Format) (pages : List Page) (checks : List BalanceCheck) (currency : String)
    (first last : BalanceCheck) (hconfig : config.mt940 = some format)
    (hlex : Mt940.lex text.toList = .ok (pages.flatMap Page.fields))
    (h : Chained lib format.decimalSeparator pages checks currency)
    (hfirst : checks.head? = some first) (hlast : checks.getLast? = some last) :
    (∃ check, mt940Check lib text config = .ok (some check) ∧ check.balanced = true) ↔
      last.balances.openingMinor = first.balances.openingMinor := by
  obtain ⟨check, hcheck, hopening, hclosing, hnet⟩ := fieldsCheck_pages h.checked h.currency hlast
  rw [← mt940Check_of_lex hconfig hlex] at hcheck
  obtain ⟨rest, rfl⟩ := List.head?_eq_some_iff.mp hfirst
  have htelescoped := closing_telescopes (balanced_of_forall₂ h.checked) h.chained hlast
  simp only [hcheck, Except.ok.injEq, Option.some.injEq, exists_eq_left', balanced_iff, hopening,
    hclosing, hnet, htelescoped]
  exact ⟨fun heq => (add_right_cancel heq).symm, fun heq => by rw [heq]⟩

/-! ## A file of two pages -/

/-- A page with one credit of 25,00, at some line of the file. -/
def creditPage (lineNo : Nat) (openingTag closingTag opening closing : String)
    (hopening : openingTag ∈ Mt940.openingTags) (hclosing : closingTag ∈ Mt940.closingTags) :
    Page where
  before := [⟨"25", "ACC1".toList, lineNo⟩]
  opening := ⟨openingTag, opening.toList, lineNo + 1⟩
  entries := [⟨"61", "2603010301C25,00NTRFPAY42".toList, lineNo + 2⟩]
  closing := ⟨closingTag, closing.toList, lineNo + 3⟩
  after := []
  openingTag := hopening
  closingTag := hclosing
  others := by
    simp [LexedField.IsBalance, Mt940.openingTags, Mt940.closingTags]

def firstPage : Page :=
  creditPage 1 "60F" "62M" "C260301INR100,00" "C260301INR125,00" (by decide) (by decide)

def secondPage : Page :=
  creditPage 5 "60M" "62F" "C260301INR125,00" "C260301INR150,00" (by decide) (by decide)

def pagesText : String :=
  ":25:ACC1\n:60F:C260301INR100,00\n:61:2603010301C25,00NTRFPAY42\n:62M:C260301INR125,00\n" ++
  ":25:ACC1\n:60M:C260301INR125,00\n:61:2603010301C25,00NTRFPAY42\n:62F:C260301INR150,00"

/-- The check of a page with one credit. -/
def creditCheck (openingMinor closingMinor : Int) : BalanceCheck :=
  ⟨⟨none, some "ACC1", "INR", openingMinor, closingMinor, none, none⟩, 1, 0, 2500⟩

theorem pagesText_lexed :
    Mt940.lex pagesText.toList = .ok ([firstPage, secondPage].flatMap Page.fields) := by
  decide +kernel

theorem pages_chained :
    Chained amountLibrary "," [firstPage, secondPage]
      [creditCheck 10000 12500, creditCheck 12500 15000] "INR" where
  checked := by
    refine List.Forall₂.cons ⟨?_, ?_⟩ (List.Forall₂.cons ⟨?_, ?_⟩ List.Forall₂.nil) <;>
      decide +kernel
  currency := by simp [creditCheck]
  chained := by simp [creditCheck]

theorem pages_balanced_iff_twoPages :
    (∃ check, mt940Check amountLibrary pagesText Mt940.statementBank = .ok (some check) ∧
        check.balanced = true) ↔
      (creditCheck 12500 15000).balances.openingMinor =
        (creditCheck 10000 12500).balances.openingMinor :=
  pages_balanced_iff amountLibrary pagesText Mt940.statementBank ⟨","⟩ [firstPage, secondPage]
    [creditCheck 10000 12500, creditCheck 12500 15000] "INR" _ _ rfl pagesText_lexed pages_chained
    rfl rfl

/-- Two pages that balance one by one do not balance as a file. -/
theorem pages_unbalanced :
    ¬ ∀ (lib : TextLibrary) (text : String) (config : BankFormats) (format : Mt940Format)
      (pages : List Page) (checks : List BalanceCheck) (currency : String),
      config.mt940 = some format →
      Mt940.lex text.toList = .ok (pages.flatMap Page.fields) →
      Chained lib format.decimalSeparator pages checks currency → pages ≠ [] →
      ∃ check, mt940Check lib text config = .ok (some check) ∧ check.balanced = true := by
  intro h
  obtain ⟨check, hcheck, hbalanced⟩ := h amountLibrary pagesText Mt940.statementBank ⟨","⟩
    [firstPage, secondPage] [creditCheck 10000 12500, creditCheck 12500 15000] "INR" rfl
    pagesText_lexed pages_chained (List.cons_ne_nil _ _)
  have hfile : (mt940Check amountLibrary pagesText Mt940.statementBank).map
      (·.map BalanceCheck.balanced) = .ok (some false) := by
    decide +kernel
  rw [hcheck] at hfile
  simp only [Except.map, Option.map_some, hbalanced, Except.ok.injEq, Option.some.injEq,
    reduceCtorEq] at hfile

end Recon
