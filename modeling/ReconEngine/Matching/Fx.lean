import ReconEngine.Matching.Pools
import ReconEngine.Numeric.Rounding

/-!
# Exchange rates

`FxService.quote` picks a rate for a booking date, and `recon.fx.convert` turns minor units of a
currency into INR paise. A decimal is an exact rational here, and every operation on decimals rounds
its result to the digits of the decimal context.

**The laws of the context** (`rounded_mono`, `rounded_shift`, `rounded_near`): rounding keeps the
order, does not depend on where the point is, and moves a small value by next to nothing. They are
what the comparisons of amounts in INR rest on.

**What it does not establish.** Anything about where rates come from (`Fx.Uploads`), or about a
conversion back from INR, which nothing calls. Signals of the decimal context other than those the
code can meet are left out.
-/

set_option autoImplicit false

namespace Recon

open Store.Prog hiding pure bind

export Numeric (halfEven)

/-- The digits that the decimal context keeps. -/
def contextPrecision : Nat := 28

/-- The result of one decimal operation. -/
def rounded (x : Rat) : Rat := Numeric.roundDigits contextPrecision x

/-- What is kept does not depend on where the point is. -/
theorem rounded_shift (x : Rat) (e : Int) :
    rounded (x * (10 : Rat) ^ e) = rounded x * (10 : Rat) ^ e :=
  Numeric.roundDigits_shift x e

theorem rounded_nonneg {x : Rat} (h : 0 ≤ x) : 0 ≤ rounded x :=
  Numeric.le_roundDigits (by decide) ⟨0, 0, by norm_num, by norm_num⟩ h

/-- The decimal context keeps the order. -/
theorem rounded_mono {x y : Rat} (hx : 0 ≤ x) (h : x ≤ y) : rounded x ≤ rounded y :=
  Numeric.roundDigits_mono (by decide) hx h

/-- A small value is kept to far more places than any figure is written with. -/
theorem rounded_near {x : Rat} (hx : |x| < 10) : |rounded x - x| ≤ 1 / 10 ^ 12 := by
  have herror := Numeric.roundDigits_error_of_lt contextPrecision (k := 1) (by simpa using hx)
  refine herror.trans ?_
  rw [contextPrecision]
  norm_num

/-- ISO 4217 minor-unit exponents. -/
def currencyExponents : List (String × Nat) :=
  [("INR", 2), ("USD", 2), ("GBP", 2), ("EUR", 2), ("SGD", 2), ("AED", 2), ("JPY", 0), ("KWD", 3),
    ("BHD", 3), ("OMR", 3)]

/-- `currency_exponent`; `none` is `UnknownCurrencyError`. The codes of stored transactions are those
of the table; where a code comes from outside, what `str.upper` makes of it is a parameter. -/
def currencyExponent (currency : String) (upper : String → String := String.toUpper) : Option Nat :=
  currencyExponents.lookup (upper currency)

/-- The message of an `UnknownCurrencyError`. -/
def unknownCurrency (currency : String) : String :=
  "no minor-unit exponent registered for currency " ++ pythonRepr currency ++
    "; call register_currency_exponent() before using it"

theorem currencyExponent_inr : currencyExponent "INR" = some 2 := by decide +kernel

structure FxQuote where
  currency : String
  rateInr : Rat
  source : String
  rateDate : Date
  daysStale : Int
  suspect : Bool
deriving DecidableEq, Repr

def FxSource.rank : FxSource → Nat
  | .rbi => 0
  | .fbil => 1
  | .bankCard => 2

/-- The source as it is stored. -/
def FxSource.text : FxSource → String
  | .rbi => "RBI"
  | .fbil => "FBIL"
  | .bankCard => "BANK_CARD"

def defaultMaxStaleDays : Nat := 3

/-- The latest date first, then clean before suspect, then the source hierarchy. -/
def FxRate.before (a b : FxRate) : Bool :=
  ((compare b.rateDate a.rateDate).then
    ((compare a.suspect b.suspect).then (compare a.source.rank b.source.rank))).isLE

/-- The latest date first, then the source hierarchy. -/
def FxRate.beforeClean (a b : FxRate) : Bool :=
  ((compare b.rateDate a.rateDate).then (compare a.source.rank b.source.rank)).isLE

/-- `_quote`. -/
def FxRate.quoteOn (row : FxRate) (day : Date) : FxQuote where
  currency := row.currency
  rateInr := row.rateInr
  source := row.source.text
  rateDate := row.rateDate
  daysStale := day - row.rateDate
  suspect := row.suspect

/-- The first of the least rows in an order. -/
def leastBy {α : Type} (le : α → α → Bool) : List α → Option α
  | [] => none
  | row :: rows => some (rows.foldl (fun best row => if le best row then best else row) row)

/-- The least row is one of the rows. -/
theorem leastBy_mem {α : Type} {le : α → α → Bool} : ∀ {rows : List α} {best : α},
    leastBy le rows = some best → best ∈ rows
  | row :: rows, best, h => by
    have hfold : ∀ (rest : List α) (first : α),
        rest.foldl (fun best row => if le best row then best else row) first ∈ first :: rest := by
      intro rest
      induction rest with
      | nil => exact fun first => List.mem_cons_self
      | cons row rest ih =>
        intro first
        rw [List.foldl_cons]
        rcases List.mem_cons.mp (ih (if le first row then first else row)) with heq | hmem
        · rw [heq]
          split
          · exact List.mem_cons_self
          · exact List.mem_cons_of_mem _ List.mem_cons_self
        · exact List.mem_cons_of_mem _ (List.mem_cons_of_mem _ hmem)
    cases h
    exact hfold rows row

/-- `pick_quote`: a clean rate on an older date beats a suspect rate on the day itself. -/
def pickQuote (rows : List FxRate) (day : Date) (maxStaleDays : Int) : Option FxQuote := do
  let eligible := rows.filter fun r => 0 ≤ day - r.rateDate && day - r.rateDate ≤ maxStaleDays
  let best ← leastBy FxRate.before eligible
  let best ← if best.suspect then
      leastBy FxRate.beforeClean (eligible.filter (!·.suspect)) <|> some best
    else some best
  return best.quoteOn day

def Db.quote (d : Db) (currency : String) (day : Date) : Option FxQuote :=
  if currency = "INR" then some ⟨"INR", 1, "IDENTITY", day, 0, false⟩
  else pickQuote (d.rates.filter (·.currency = currency)) day defaultMaxStaleDays

/-- `FxService.quote`. -/
def quote (currency : String) (day : Date) : Prog (Option FxQuote) := do
  let d ← tables
  return d.quote currency day

/-- `to_inr_minor`. -/
def toInrMinor (amountMinor : Int) (currency : String) (rateInr : Rat) : Except ReconError Int :=
  if currency = "INR" then .ok amountMinor
  else match currencyExponent currency with
    | none => .error (.valueError (unknownCurrency currency))
    | some exponent =>
      .ok (halfEven (rounded (rounded (amountMinor * rateInr) * (10 : Rat) ^ ((2 : Int) - exponent))))

/-- `relative_difference_percent`: |a - b| / mean(a, b) as a percentage. -/
def relativeDifferencePercent (a b : Int) : Rat :=
  let mean := rounded (((a + b : Int) : Rat) / 2)
  if mean = 0 then 0
  else rounded (rounded (rounded |((a - b : Int) : Rat)| / mean) * 100)

/-- `implied_rate`: INR per unit, from an INR amount and a foreign amount. -/
def impliedRate (inrMinor foreignMinor : Int) (currency : String) :
    Except ReconError (Option Rat) :=
  if foreignMinor = 0 then .ok none
  else match currencyExponent currency with
    | none => .error (.valueError (unknownCurrency currency))
    | some exponent =>
      .ok (some (rounded (inrMinor /
        rounded (foreignMinor * (10 : Rat) ^ ((exponent : Int) - 2)))))

/-- `quantize(Decimal("0.0001"))`: four places, when they fit the context. -/
def quantizeFour (x : Rat) : Except ReconError Rat :=
  let scaled := halfEven (x * 10000)
  if (10 : Int) ^ contextPrecision ≤ |scaled| then .error (.arithmetic "InvalidOperation")
  else .ok (scaled / 10000)

/-- A quoted leg in INR paise; `none` when no rate is available. -/
def legInr (t : NormalisedTransaction) : Prog (Option Int) := do
  match ← quote t.currency t.txnDate with
  | none => return none
  | some q =>
    match toInrMinor t.amountMinor t.currency q.rateInr with
    | .error e => .fail e
    | .ok inr => return some inr

@[simp] theorem work_legInr {W : RowWrite → Prop} (t : NormalisedTransaction) :
    (legInr t).Work W := by
  refine Work.bind (Work.bind work_tables fun _ => work_pure _) fun q => ?_
  cases q with
  | none => exact work_pure _
  | some q =>
    dsimp only
    split
    · exact work_fail _
    · exact work_pure _

/-- Reading a rate changes nothing. -/
theorem legInr_wp {Q : Option Int → Session → Prop} {E : ReconError → Session → Prop}
    {t : NormalisedTransaction} {s : Session} (hQ : ∀ inr, Q inr s) (hE : ∀ e, E e s) :
    (legInr t).wp Q E s := by
  simp only [legInr, quote, bind_eq, wp_bind, wp_tables, pure_eq, wp_pure]
  split
  · exact hQ none
  · split
    · exact hE _
    · exact hQ _

end Recon
