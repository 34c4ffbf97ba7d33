import ReconEngine.Exceptions.PairAnalysis
import ReconEngine.Ingestion.Camt053
import ReconEngine.Traversal.Except
import Mathlib.Data.Int.Log

/-!
# Balances of statements

A statement states an opening and a closing balance, and `check_statement` adds its entries up
between them. A row that cannot be read is counted as such; an amount that is no number of the
decimal context makes the check raise.

The check has one currency for everything it adds. `Money` says what that should mean: a sum of two
amounts is refused when their currencies differ.

**The law** (`sumsOfMoney_iff`): what the check adds up are sums of money if and only if both stated
balances and every entry that it can read are in one currency.

**What it does not establish.** That a statement which balances was read correctly: an amount
counted as unreadable on one side may make up for another. Pages are the subject of
`Ingestion.BalancePages`.
-/

set_option autoImplicit false

namespace Recon

/-! ## Minor units -/

/-- `_SIGN`: what a mark does to a balance. -/
def markSigns : List (String × Int) :=
  [("C", 1), ("CRDT", 1), ("RD", 1), ("D", -1), ("DBIT", -1), ("RC", -1)]

/-- The exponent of the first digit. -/
def adjusted (value : Rat) : Int := Int.log 10 |value|

/-- A result as the context keeps it: 28 digits, half to even. -/
def contextRound (value : Rat) : Rat :=
  if value = 0 then 0
  else
    let unit : Rat := 10 ^ (adjusted value - 27)
    halfEven (value / unit) * unit

/-- The greatest exponent of the context. -/
def contextEmax : Int := 999999

def overflows (value : Rat) : Bool := value ≠ 0 && contextEmax < adjusted value

/-- `_to_minor`; `none` when the text is no amount or the currency is not known. -/
def toMinor (lib : TextLibrary) (amountRaw : Option String) (currency decimalSeparator : String) :
    Except ReconError (Option Int) :=
  match nonBlank amountRaw with
  | none => .ok none
  | some text =>
    match lib.decimal (replaceText (strip text) decimalSeparator "."), currencyExponent currency lib.upper with
    | .invalid, _ => .ok none
    | _, none => .ok none
    | .nan, some _ => .error (.valueError "cannot convert NaN to integer")
    | .signalingNan, some _ => .error (.arithmetic "InvalidOperation")
    | .infinite, some _ => .error (.arithmetic "cannot convert Infinity to integer")
    | .finite value, some exponent =>
      let scaled := contextRound (value * 10 ^ exponent)
      if overflows scaled then .error (.arithmetic "Overflow") else .ok (some (halfEven scaled))

/-! ## The stated balances -/

structure StatementBalances where
  statementRef : Option String
  account : Option String
  currency : String
  openingMinor : Int
  closingMinor : Int
  openingDate : Option Date
  closingDate : Option Date
deriving DecidableEq, Repr

/-- A balance as a statement states it. -/
structure StatedBalance where
  mark : String
  dateRaw : Option String
  currency : String
  amountRaw : Option String
deriving DecidableEq, Repr

/-- The header of a statement of either format. -/
inductive Header where
  | mt940 (header : Mt940.StatementHeader)
  | camt (header : Camt053.StatementHeader)
deriving DecidableEq, Repr

def Mt940.Balance.stated (b : Mt940.Balance) : StatedBalance :=
  ⟨b.mark, some b.dateRaw, b.currency, some b.amountRaw⟩

/-- A balance of CAMT.053 that has a currency. -/
def Camt053.Balance.stated (b : Camt053.Balance) : Option StatedBalance :=
  (nonBlank b.currency).map fun currency =>
    ⟨b.creditDebitIndicator, b.dateRaw, currency, b.amountRaw⟩

def camtOpening : List String := ["OPBD", "PRCD"]

def camtClosing : List String := ["CLBD"]

namespace Header

/-- The opening and the closing balance: of MT940 those of the header, of CAMT.053 the first of
their types. -/
def stated : Header → Option (StatedBalance × StatedBalance)
  | mt940 header => do
    let opening ← header.openingBalance
    let closing ← header.closingBalance
    return (opening.stated, closing.stated)
  | camt header => do
    let opening ← header.balances.find? (·.typeCode ∈ camtOpening)
    let closing ← header.balances.find? (·.typeCode ∈ camtClosing)
    return (← opening.stated, ← closing.stated)

def statementRef : Header → Option String
  | mt940 header => nonBlank header.statementNumber <|> header.transactionReference
  | camt header => nonBlank header.statementId <|> header.messageId

def account : Header → Option String
  | mt940 header => header.accountId
  | camt header => header.accountId

/-- The format of the dates and how many characters of them are read. -/
def dateFormat : Header → String × Nat
  | mt940 _ => ("%y%m%d", 6)
  | camt _ => ("%Y-%m-%d", 10)

end Header

/-- `_parse_date`. -/
def parseDate (lib : TextLibrary) (raw : Option String) (format : String × Nat) : Option Date :=
  (nonBlank raw).bind fun text =>
    (lib.strptime (String.ofList ((stripChars text.toList).take format.2)) format.1).map (·.date)

/-- `mt940_balances` and `camt_balances`. A balance without a known mark counts as a credit. -/
def statementBalances (lib : TextLibrary) (header : Header) (decimalSeparator : String) :
    Except ReconError (Option StatementBalances) :=
  match header.stated with
  | none => .ok none
  | some (opening, closing) => do
    let o ← toMinor lib opening.amountRaw opening.currency decimalSeparator
    let c ← toMinor lib closing.amountRaw closing.currency decimalSeparator
    match o, c with
    | some o, some c =>
      return some {
        statementRef := header.statementRef
        account := header.account
        currency := opening.currency
        openingMinor := o * (markSigns.lookup opening.mark).getD 1
        closingMinor := c * (markSigns.lookup closing.mark).getD 1
        openingDate := parseDate lib opening.dateRaw header.dateFormat
        closingDate := parseDate lib closing.dateRaw header.dateFormat }
    | _, _ => return none

/-! ## The check -/

structure BalanceCheck where
  balances : StatementBalances
  entryCount : Nat := 0
  unparseableEntries : Nat := 0
  netEntriesMinor : Int := 0
deriving DecidableEq, Repr

namespace BalanceCheck

variable (check : BalanceCheck)

def computedClosingMinor : Int := check.balances.openingMinor + check.netEntriesMinor

def differenceMinor : Int := check.balances.closingMinor - check.computedClosingMinor

def balanced : Bool := check.differenceMinor == 0

end BalanceCheck

/-- The currency of a row, of the statement where the row names none. -/
def rowCurrency (row : ParsedRow) (statementCurrency : String) : String :=
  (nonBlank (row.mapped.lookup "currency")).getD statementCurrency

/-- The signed amount of a row, `none` when it cannot be read. -/
def rowEntry (lib : TextLibrary) (statementCurrency decimalSeparator : String) (row : ParsedRow) :
    Except ReconError (Option Int) := do
  let mark := lib.upper (strip ((row.mapped.lookup "direction").getD ""))
  let amount ← toMinor lib (row.mapped.lookup "amount") (rowCurrency row statementCurrency)
    decimalSeparator
  match markSigns.lookup mark, amount with
  | some sign, some amount => return some (amount * sign)
  | _, _ => return none

/-- One row of the loop of `check_statement`. -/
def countEntry (check : BalanceCheck) : Option Int → BalanceCheck
  | none => { check with unparseableEntries := check.unparseableEntries + 1 }
  | some amount =>
    { check with
      entryCount := check.entryCount + 1
      netEntriesMinor := check.netEntriesMinor + amount }

def checkStatement (lib : TextLibrary) (balances : StatementBalances) (rows : List ParsedRow)
    (decimalSeparator : String) : Except ReconError BalanceCheck :=
  rows.foldlM (fun check row => do
    let entry ← rowEntry lib balances.currency decimalSeparator row
    return countEntry check entry) { balances }

/-- The check made at ingestion, on the header and the rows of a file. -/
def ingestionCheck (lib : TextLibrary) (header : Header) (rows : List ParsedRow)
    (decimalSeparator : String) : Except ReconError (Option BalanceCheck) := do
  match ← statementBalances lib header decimalSeparator with
  | none => return none
  | some balances => some <$> checkStatement lib balances rows decimalSeparator

/-! ## What the check adds up -/

/-- What counting some entries comes to. -/
def countEntries (check : BalanceCheck) (entries : List (Option Int)) : BalanceCheck :=
  entries.foldl countEntry check

theorem countEntries_eq (check : BalanceCheck) (entries : List (Option Int)) :
    countEntries check entries =
      { check with
        entryCount := check.entryCount + entries.countP Option.isSome
        unparseableEntries := check.unparseableEntries + entries.countP Option.isNone
        netEntriesMinor := check.netEntriesMinor + (entries.filterMap id).sum } := by
  induction entries generalizing check with
  | nil => simp [countEntries]
  | cons entry entries ih =>
    rw [countEntries, List.foldl_cons, ← countEntries, ih]
    cases entry with
    | none => simp [countEntry, Nat.add_assoc, Nat.add_comm 1]
    | some amount => simp [countEntry, Nat.add_comm 1, add_assoc]

@[simp] theorem countEntries_balances (check : BalanceCheck) (entries : List (Option Int)) :
    (countEntries check entries).balances = check.balances := by
  rw [countEntries_eq]

/-- What is counted is the sum of what can be read. -/
@[simp] theorem countEntries_net (check : BalanceCheck) (entries : List (Option Int)) :
    (countEntries check entries).netEntriesMinor =
      check.netEntriesMinor + (entries.filterMap id).sum := by
  rw [countEntries_eq]

/-- The check reads every row and then counts the entries. -/
theorem foldlM_countEntry (read : ParsedRow → Except ReconError (Option Int))
    (rows : List ParsedRow) (check : BalanceCheck) :
    rows.foldlM (fun check row => do
      let entry ← read row
      return countEntry check entry) check = (rows.mapM read).map (countEntries check) := by
  induction rows generalizing check with
  | nil => rfl
  | cons row rows ih =>
    rw [List.foldlM_cons, List.mapM_cons]
    cases hread : read row with
    | error e => rfl
    | ok entry =>
      have h := ih (countEntry check entry)
      simp only [bind, Except.bind, pure, Except.pure] at h ⊢
      rw [h]
      cases rows.mapM read <;> rfl

/-- The check, as counting over the entries of the rows. -/
theorem checkStatement_eq (lib : TextLibrary) (balances : StatementBalances)
    (rows : List ParsedRow) (decimalSeparator : String) :
    checkStatement lib balances rows decimalSeparator =
      (rows.mapM (rowEntry lib balances.currency decimalSeparator)).map
        (countEntries { balances }) :=
  foldlM_countEntry _ rows _

/-- The entries of a check that was made. -/
theorem checkStatement_ok_iff {lib : TextLibrary} {balances : StatementBalances}
    {rows : List ParsedRow} {decimalSeparator : String} {check : BalanceCheck} :
    checkStatement lib balances rows decimalSeparator = .ok check ↔
      ∃ entries, rows.mapM (rowEntry lib balances.currency decimalSeparator) = .ok entries ∧
        countEntries { balances } entries = check := by
  rw [checkStatement_eq]
  cases rows.mapM (rowEntry lib balances.currency decimalSeparator) <;> simp [Except.map]

/-- Every row is counted once, as an entry or as unparseable. -/
theorem checkStatement_counts {lib : TextLibrary} {balances : StatementBalances}
    {rows : List ParsedRow} {decimalSeparator : String} {check : BalanceCheck}
    (h : checkStatement lib balances rows decimalSeparator = .ok check) :
    check.entryCount + check.unparseableEntries = rows.length := by
  obtain ⟨entries, hentries, rfl⟩ := checkStatement_ok_iff.mp h
  rw [← Traversal.length_of_mapM hentries, countEntries_eq]
  simp only [Nat.zero_add]
  clear hentries h
  induction entries with
  | nil => rfl
  | cons entry entries ih => cases entry <;> simp <;> omega

/-! ## Sums of one currency -/

/-- An amount with its currency, in upper case. -/
structure Money where
  currency : String
  minorUnits : Int
deriving DecidableEq, Repr

namespace Money

/-- `Money.from_minor_units`. -/
def fromMinorUnits (lib : TextLibrary) (minorUnits : Int) (currency : String) : Money :=
  ⟨lib.upper currency, minorUnits⟩

/-- `_require_same_currency`. -/
def requireSameCurrency (a b : Money) : Except ReconError Unit :=
  if a.currency = b.currency then .ok ()
  else .error (.valueError ("cannot combine " ++ a.currency ++ " and " ++ b.currency ++
    " directly; convert via recon.fx before combining amounts in different currencies"))

/-- `Money.__add__`. -/
def add (a b : Money) : Except ReconError Money := do
  requireSameCurrency a b
  return ⟨a.currency, a.minorUnits + b.minorUnits⟩

/-- `Money.__sub__`. -/
def sub (a b : Money) : Except ReconError Money := do
  requireSameCurrency a b
  return ⟨a.currency, a.minorUnits - b.minorUnits⟩

/-- Amounts add up in one currency only. -/
theorem add_ok_iff {a b c : Money} :
    a.add b = .ok c ↔ b.currency = a.currency ∧ c = ⟨a.currency, a.minorUnits + b.minorUnits⟩ := by
  unfold add requireSameCurrency
  by_cases h : a.currency = b.currency
  · simp [h, bind, Except.bind, pure, Except.pure, eq_comm]
  · simp [h, bind, Except.bind, eq_comm]

theorem sub_ok_iff {a b c : Money} :
    a.sub b = .ok c ↔ a.currency = b.currency ∧ c = ⟨a.currency, a.minorUnits - b.minorUnits⟩ := by
  unfold sub requireSameCurrency
  by_cases h : a.currency = b.currency
  · simp [h, bind, Except.bind, pure, Except.pure, eq_comm]
  · simp [h, bind, Except.bind]

/-- A sum is made exactly when every amount has the currency of the first. -/
theorem foldlM_add_ok_iff {a c : Money} {moneys : List Money} :
    moneys.foldlM add a = .ok c ↔ (∀ b ∈ moneys, b.currency = a.currency) ∧
      c = ⟨a.currency, a.minorUnits + (moneys.map (·.minorUnits)).sum⟩ := by
  induction moneys generalizing a with
  | nil =>
    simp only [List.foldlM_nil, pure, Except.pure, Except.ok.injEq, List.not_mem_nil,
      false_implies, implies_true, true_and, List.map_nil, List.sum_nil, add_zero]
    exact eq_comm
  | cons b moneys ih =>
    rw [List.foldlM_cons]
    by_cases hb : b.currency = a.currency
    · rw [add_ok_iff.mpr ⟨hb, rfl⟩]
      change moneys.foldlM add ⟨a.currency, a.minorUnits + b.minorUnits⟩ = .ok c ↔ _
      rw [ih]
      simp [hb, add_assoc]
    · have hrefused : a.add b = .error (.valueError ("cannot combine " ++ a.currency ++ " and " ++
          b.currency ++
            " directly; convert via recon.fx before combining amounts in different currencies")) := by
        simp [add, requireSameCurrency, Ne.symm hb, bind, Except.bind]
      rw [hrefused]
      simp [bind, Except.bind, hb]

end Money

/-- The signed amount of a row, in the currency that its amount is read in. -/
def rowMoney (lib : TextLibrary) (statementCurrency decimalSeparator : String) (row : ParsedRow) :
    Except ReconError (Option Money) :=
  (rowEntry lib statementCurrency decimalSeparator row).map fun entry =>
    entry.map (Money.fromMinorUnits lib · (rowCurrency row statementCurrency))

/-- What a check adds and subtracts are amounts of one currency: the same sums can be made of
`Money`, and come to the same. -/
def SumsOfMoney (lib : TextLibrary) (opening closing : StatedBalance) (rows : List ParsedRow)
    (decimalSeparator : String) (check : BalanceCheck) : Prop :=
  ∃ moneys computed difference,
    rows.mapM (rowMoney lib check.balances.currency decimalSeparator) = .ok moneys ∧
      (moneys.filterMap id).foldlM Money.add
        (Money.fromMinorUnits lib check.balances.openingMinor opening.currency) = .ok computed ∧
      (Money.fromMinorUnits lib check.balances.closingMinor closing.currency).sub computed =
        .ok difference ∧
      computed.minorUnits = check.computedClosingMinor ∧
      difference.minorUnits = check.differenceMinor

/-- The closing balance and every row that can be read are in the currency of the opening balance,
up to the case of its letters. -/
structure OneCurrency (lib : TextLibrary) (opening closing : StatedBalance) (rows : List ParsedRow)
    (decimalSeparator : String) : Prop where
  closing : lib.upper closing.currency = lib.upper opening.currency
  rows : ∀ row ∈ rows, ∀ amount, rowEntry lib opening.currency decimalSeparator row =
    .ok (some amount) → lib.upper (rowCurrency row opening.currency) = lib.upper opening.currency

section

variable {lib : TextLibrary} {statementCurrency decimalSeparator : String}

/-- The amounts of the rows with their currencies, and without. -/
theorem mapM_rowMoney {rows : List ParsedRow} {entries : List (Option Int)}
    (h : rows.mapM (rowEntry lib statementCurrency decimalSeparator) = .ok entries) :
    ∃ moneys, rows.mapM (rowMoney lib statementCurrency decimalSeparator) = .ok moneys ∧
      (moneys.filterMap id).map (·.minorUnits) = entries.filterMap id ∧
      ((∀ money ∈ moneys.filterMap id, money.currency = lib.upper statementCurrency) ↔
        ∀ row ∈ rows, ∀ amount, rowEntry lib statementCurrency decimalSeparator row =
          .ok (some amount) →
            lib.upper (rowCurrency row statementCurrency) = lib.upper statementCurrency) := by
  rw [Traversal.mapM_eq_ok_iff] at h
  induction h with
  | nil => exact ⟨[], rfl, rfl, by simp⟩
  | @cons row entry rows entries hread _ ih =>
    obtain ⟨moneys, hmoneys, hunits, hcurrency⟩ := ih
    have hmoney : rowMoney lib statementCurrency decimalSeparator row =
        .ok (entry.map (Money.fromMinorUnits lib · (rowCurrency row statementCurrency))) := by
      simp [rowMoney, hread, Except.map]
    refine ⟨entry.map (Money.fromMinorUnits lib · (rowCurrency row statementCurrency)) :: moneys,
      Traversal.mapM_eq_ok_iff.mpr (List.Forall₂.cons hmoney (Traversal.mapM_eq_ok_iff.mp hmoneys)),
      ?_, ?_⟩
    · cases entry with
      | none => simpa using hunits
      | some amount => simpa [Money.fromMinorUnits] using hunits
    · cases entry with
      | none => simpa [hread] using hcurrency
      | some amount =>
        simp only [Option.map_some, List.filterMap_cons, id_eq, List.forall_mem_cons, hread,
          Except.ok.injEq, Option.some.injEq, forall_eq', Money.fromMinorUnits]
        exact and_congr_right fun _ => hcurrency

/-- Both balances are read in the currency of the opening one. -/
theorem statementBalances_currency {header : Header} {balances : StatementBalances}
    {opening closing : StatedBalance} (hstated : header.stated = some (opening, closing))
    (h : statementBalances lib header decimalSeparator = .ok (some balances)) :
    balances.currency = opening.currency := by
  simp only [statementBalances, hstated] at h
  cases ho : toMinor lib opening.amountRaw opening.currency decimalSeparator with
  | error e => simp [ho, bind, Except.bind] at h
  | ok o =>
    cases hc : toMinor lib closing.amountRaw closing.currency decimalSeparator with
    | error e => simp [ho, hc, bind, Except.bind] at h
    | ok c =>
      cases o <;> cases c <;>
        simp only [ho, hc, bind, Except.bind, pure, Except.pure, Except.ok.injEq,
          Option.some.injEq, reduceCtorEq] at h
      exact h ▸ rfl

/-- **The check adds amounts of one currency exactly when the statement has one**: nothing in the
sums looks at the currency of the closing balance or of a row. -/
theorem sumsOfMoney_iff (lib : TextLibrary) (header : Header) (rows : List ParsedRow)
    (decimalSeparator : String) (opening closing : StatedBalance) (balances : StatementBalances)
    (check : BalanceCheck) (hstated : header.stated = some (opening, closing))
    (hbalances : statementBalances lib header decimalSeparator = .ok (some balances))
    (hcheck : checkStatement lib balances rows decimalSeparator = .ok check) :
    SumsOfMoney lib opening closing rows decimalSeparator check ↔
      OneCurrency lib opening closing rows decimalSeparator := by
  obtain ⟨entries, hentries, rfl⟩ := checkStatement_ok_iff.mp hcheck
  have hcurrency := statementBalances_currency hstated hbalances
  unfold SumsOfMoney
  rw [countEntries_balances, hcurrency]
  rw [hcurrency] at hentries
  obtain ⟨moneys, hmoneys, hunits, hrows⟩ := mapM_rowMoney hentries
  simp only [hmoneys, Except.ok.injEq, Money.foldlM_add_ok_iff, Money.sub_ok_iff]
  constructor
  · intro h
    obtain ⟨_, computed, difference, rfl, ⟨hall, rfl⟩, ⟨hclosing, -⟩, -⟩ := h
    exact ⟨hclosing, hrows.mp hall⟩
  · intro h
    refine ⟨_, _, _, rfl, ⟨hrows.mpr h.rows, rfl⟩, ⟨h.closing, rfl⟩, ?_, ?_⟩
    · simp only [BalanceCheck.computedClosingMinor, countEntries_balances, countEntries_net,
        Money.fromMinorUnits, hunits, zero_add]
    · simp only [BalanceCheck.differenceMinor, BalanceCheck.computedClosingMinor,
        countEntries_balances, countEntries_net, Money.fromMinorUnits, hunits, zero_add]

end

/-! ## A statement with two currencies -/

/-- What the library reads off the texts of the statement. -/
def amountLibrary : TextLibrary where
  strptime _ _ := none
  zoneInfo _ := none
  decimal text :=
    if text = "100.00" then .finite 100 else if text = "125.00" then .finite 125
    else if text = "150.00" then .finite 150 else if text = "25.00" then .finite 25
    else .invalid

/-- From 100.00 to 125.00, the closing balance in some currency. -/
def growingHeader (closingCurrency : String) : Header :=
  .camt
    { messageId := none, accountId := none, statementId := none
      balances := [⟨"OPBD", "CRDT", none, some "INR", some "100.00"⟩,
        ⟨"CLBD", "CRDT", none, some closingCurrency, some "125.00"⟩] }

def growingStated (closingCurrency : String) : StatedBalance × StatedBalance :=
  (⟨"CRDT", none, "INR", some "100.00"⟩, ⟨"CRDT", none, closingCurrency, some "125.00"⟩)

def growingBalances : StatementBalances := ⟨none, none, "INR", 10000, 12500, none, none⟩

/-- One entry of 25.00, in some currency. -/
def growingRows (currency : String) : List ParsedRow :=
  [{ lineNo := 1, rawFields := [],
     mapped := [("amount", "25.00"), ("currency", currency), ("direction", "CRDT")] }]

theorem sumsOfMoney_iff_growing :
    SumsOfMoney amountLibrary (growingStated "INR").1 (growingStated "INR").2 (growingRows "INR") "."
        ⟨growingBalances, 1, 0, 2500⟩ ↔
      OneCurrency amountLibrary (growingStated "INR").1 (growingStated "INR").2 (growingRows "INR")
        "." :=
  sumsOfMoney_iff amountLibrary (growingHeader "INR") (growingRows "INR") "." _ _ growingBalances _
    rfl (by decide +kernel) (by decide +kernel)

/-- A closing balance in dollars and an entry in rupees balance as they are. -/
theorem closingCurrency_mixed :
    ¬ ∀ (lib : TextLibrary) (header : Header) (rows : List ParsedRow) (decimalSeparator : String)
      (opening closing : StatedBalance) (balances : StatementBalances) (check : BalanceCheck),
      header.stated = some (opening, closing) →
      statementBalances lib header decimalSeparator = .ok (some balances) →
      checkStatement lib balances rows decimalSeparator = .ok check →
      SumsOfMoney lib opening closing rows decimalSeparator check := by
  intro h
  obtain ⟨moneys, computed, difference, hmoneys, hcomputed, hdifference, -⟩ :=
    h amountLibrary (growingHeader "USD") (growingRows "INR") "." (growingStated "USD").1
      (growingStated "USD").2 growingBalances ⟨growingBalances, 1, 0, 2500⟩ rfl (by decide +kernel)
      (by decide +kernel)
  obtain ⟨-, rfl⟩ := Money.foldlM_add_ok_iff.mp hcomputed
  obtain ⟨hcurrency, -⟩ := Money.sub_ok_iff.mp hdifference
  have hdollar : "USD".toUpper ≠ "INR".toUpper := by decide +kernel
  exact hdollar hcurrency

end Recon
