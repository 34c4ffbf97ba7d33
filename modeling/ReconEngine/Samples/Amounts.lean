import ReconEngine.Domain.Money
import ReconEngine.Ingestion.DecimalNotation

/-!
# Amounts of sample statements

The generator of sample files writes amounts as decimals of a fixed number of places, and for CSV
groups the digits in threes.

**The law** (`normaliseAmount_csvAmount`): whatever the two separators are, the normaliser reads the
amount back, as long as they differ from each other and from the digits.

**What it does not establish.** That a bank's own files are written so: these are the samples, and
the law ties the two ends of this code together.
-/

set_option autoImplicit false

namespace Recon.Samples

open JsonText

/-! ## Texts of amounts -/

/-- `decimal_text`. -/
def decimalText (amountMinor : Int) (currency separator : String) : Except ReconError String := do
  let exponent ← Domain.exponentOf currency
  match ← (Domain.Decimal.finite amountMinor).scaleb (-(exponent : Int)) with
  | .finite value =>
    let text := fixedPoint exponent value
    return if separator = "." then text else replaceText text "." separator
  | _ => throw (.valueError "not a finite number")

/-- `text.partition(separator)`, without the separator. -/
def partition (separator : List Char) : List Char → List Char × List Char
  | [] => ([], [])
  | c :: rest =>
    if separator.isPrefixOf (c :: rest) then ([], (c :: rest).drop separator.length)
    else ((c :: (partition separator rest).1), (partition separator rest).2)

/-- `int(text)`, of a sign and digits. -/
def readInt (text : List Char) : Except ReconError Int :=
  let signed := takeSign ((stripChars text).filter (· != '_'))
  if signed.2 ≠ [] ∧ signed.2.all isDecimal then .ok (signed.1 * digitsNumber signed.2)
  else .error (.valueError "invalid literal for int() with base 10")

/-- A comma before every third digit from the end. -/
def grouped : List Char → List Char
  | [] => []
  | c :: rest => if rest ≠ [] ∧ rest.length % 3 = 0 then c :: ',' :: grouped rest else c :: grouped rest

/-- `f"{n:,}"`. -/
def groupedInt (n : Int) : List Char :=
  (if n < 0 then ['-'] else []) ++ grouped (digits n.natAbs)

/-- `_csv_amount`. -/
def csvAmount (amountMinor : Int) (csv : CsvFormat) : Except ReconError String := do
  let text ← decimalText amountMinor "INR" csv.amountDecimalSeparator
  match csv.amountThousandsSeparator with
  | none => return text
  | some separator =>
    if separator = "" then return text
    else if csv.amountDecimalSeparator = "" then throw (.valueError "empty separator")
    else
      let parts := partition csv.amountDecimalSeparator.toList text.toList
      let whole ← readInt parts.1
      let groups := replaceText (String.ofList (groupedInt whole)) "," separator
      return groups ++ csv.amountDecimalSeparator ++ String.ofList parts.2

/-! ## Numbers that the context keeps -/

/-- A number of minor units that a decimal operation leaves as it is. -/
def Kept (n : Int) : Prop := rounded n = n ∧ overflows n = false

/-- What is kept of a number of minor units. -/
def keptUnits (n : Int) : Int := Domain.truncate (rounded n)

/-- A value of few enough digits does not overflow. -/
theorem overflows_eq_false {x : Rat} {k : Int} (hk : k ≤ contextEmax) (h : Int.log 10 |x| ≤ k) :
    overflows x = false := by
  have hnot : ¬ contextEmax < adjusted x := not_lt.mpr (h.trans hk)
  simp [overflows, hnot]

theorem log_le_of_not_overflows {x : Rat} (hx : x ≠ 0) (h : overflows x = false) :
    Int.log 10 |x| ≤ contextEmax := by
  rcases Bool.and_eq_false_iff.mp h with hzero | hlog
  · exact absurd hx (of_decide_eq_false hzero)
  · exact not_lt.mp (of_decide_eq_false hlog)

/-- An amount of at most 28 digits is kept. -/
theorem kept_of_abs_le {n : Int} (h : |n| ≤ 10 ^ 28) : Kept n := by
  refine ⟨Numeric.roundDigits_of_representable (by decide) (Domain.representable_intCast h), ?_⟩
  by_cases hn : n = 0
  · simp [hn, overflows]
  · have hpos : (0 : Rat) < |(n : Rat)| := abs_pos.mpr (by exact_mod_cast hn)
    have hbound : |(n : Rat)| ≤ (10 : Rat) ^ (28 : Int) := by
      rw [show (28 : Int) = ((28 : Nat) : Int) from rfl, zpow_natCast]
      exact_mod_cast h
    have hlog := Int.log_mono_right (b := 10) hpos hbound
    have hten : Int.log 10 ((10 : Rat) ^ (28 : Int)) = 28 := by
      exact_mod_cast Int.log_zpow (R := Rat) (b := 10) (by decide) 28
    exact overflows_eq_false (by decide) (hlog.trans hten.le)

theorem length_digits_le {n : Int} {k : Nat} (hk : 0 < k) (h : Int.log 10 |(n : Rat)| < k) :
    (digits n.natAbs).length ≤ k := by
  rw [digits, Nat.length_toDigits_le_iff (by decide) hk]
  by_cases hn : n = 0
  · subst hn
    exact Nat.pow_pos (by decide)
  · have hpos : (0 : Rat) < |(n : Rat)| := abs_pos.mpr (by exact_mod_cast hn)
    have hlt := (Int.lt_zpow_iff_log_lt (b := 10) (by decide) hpos).mpr h
    rw [zpow_natCast, ← Int.cast_abs, Int.abs_eq_natAbs] at hlt
    exact_mod_cast hlt

/-- A number that is kept has not too many digits. -/
theorem Kept.length_digits {n : Int} (h : Kept n) : (digits n.natAbs).length ≤ 1000000 := by
  by_cases hn : n = 0
  · subst hn
    decide
  · have hne : (n : Rat) ≠ 0 := by exact_mod_cast hn
    exact length_digits_le (by decide)
      (Int.lt_of_le_of_lt (log_le_of_not_overflows hne h.2) (by decide))

/-- A number that does not overflow does not when its point is moved to the left. -/
theorem overflows_shift {x : Rat} (h : overflows x = false) (places : Nat) :
    overflows (x * (10 : Rat) ^ (-(places : Int))) = false := by
  by_cases hx : x = 0
  · simp [hx, overflows]
  · refine overflows_eq_false (le_refl _) ?_
    have hlog := log_le_of_not_overflows hx h
    rw [Numeric.log_shift hx]
    omega

/-- What is left of an integer is an integer. -/
theorem rounded_intCast (n : Int) : rounded (n : Rat) = keptUnits n := by
  obtain ⟨k, hk⟩ := Domain.rounded_isInt (x := n) (e := 0) (n := n) (by simp)
  rw [zpow_zero, mul_one] at hk
  rw [keptUnits, hk, Domain.truncate_intCast]

/-- What is kept is kept again. -/
theorem rounded_keptUnits (n : Int) : rounded (keptUnits n : Rat) = keptUnits n := by
  have hrep : Numeric.Representable contextPrecision (keptUnits n : Rat) :=
    rounded_intCast n ▸ Numeric.representable_roundDigits contextPrecision (n : Rat)
  exact Numeric.roundDigits_of_representable (by decide) hrep

theorem keptUnits_nonneg {n : Int} (hn : 0 ≤ n) : 0 ≤ keptUnits n := by
  have hzero : Numeric.Representable contextPrecision (0 : Rat) := ⟨0, 0, by simp, by simp⟩
  have hround := Numeric.le_roundDigits (by decide) hzero (x := (n : Rat)) (by exact_mod_cast hn)
  have hkept : (0 : Rat) ≤ keptUnits n := rounded_intCast n ▸ hround
  exact_mod_cast hkept

/-- An amount that is kept stays as it is. -/
theorem Kept.keptUnits_eq {n : Int} (h : Kept n) : keptUnits n = n := by
  have hrounded := (rounded_intCast n).symm.trans h.1
  exact_mod_cast hrounded

/-! ## Replacing one character -/

theorem replaceFrom_singleton (c : Char) (new text : List Char) :
    replaceFrom [c] new 0 text = text.flatMap fun x => if x = c then new else [x] := by
  induction text with
  | nil => rfl
  | cons x text ih =>
    rw [replaceFrom, List.flatMap_cons]
    by_cases hx : x = c
    · subst hx
      simp [ih]
    · have hne : ¬ c = x := fun h => hx h.symm
      simp [hx, hne, ih]

/-- Replacing a single character goes character by character. -/
theorem replaceText_singleton (text : List Char) (c : Char) (new : String) :
    replaceText (String.ofList text) (String.singleton c) new =
      String.ofList (text.flatMap fun x => if x = c then new.toList else [x]) := by
  simp [replaceText, replaceFrom_singleton]

/-- Where it does not occur nothing is replaced. -/
theorem flatMap_replace_of_not_mem {text : List Char} {c : Char} (h : c ∉ text)
    (new : List Char) : (text.flatMap fun x => if x = c then new else [x]) = text := by
  induction text with
  | nil => rfl
  | cons x text ih =>
    obtain ⟨hx, htext⟩ := List.ne_and_not_mem_of_not_mem_cons h
    rw [List.flatMap_cons, if_neg (Ne.symm hx), ih htext, List.singleton_append]

/-- Replacing a character that stands in one place. -/
theorem flatMap_replace_between {before after : List Char} {c : Char} (hbefore : c ∉ before)
    (hafter : c ∉ after) (new : List Char) :
    ((before ++ c :: after).flatMap fun x => if x = c then new else [x]) =
      before ++ (new ++ after) := by
  rw [List.flatMap_append, List.flatMap_cons, if_pos rfl, flatMap_replace_of_not_mem hbefore,
    flatMap_replace_of_not_mem hafter]

theorem not_mem_of_isDigit {text : List Char} (htext : ∀ x ∈ text, x.isDigit = true) {c : Char}
    (hc : c.isDigit = false) : c ∉ text :=
  fun hmem => absurd (htext c hmem) (by simp [hc])

/-! ## The text of an amount -/

/-- The digits of an amount with its separator. -/
def amountText (exponent units : Nat) (separator : Char) : String :=
  String.ofList (digits (units / 10 ^ exponent) ++
    if exponent = 0 then [] else separator :: padded exponent (units % 10 ^ exponent))

/-- Another character for the point. -/
theorem replace_point (exponent units : Nat) (separator : Char) :
    (if String.singleton separator = "." then String.ofList (fixedDigits exponent units)
      else replaceText (String.ofList (fixedDigits exponent units)) "."
        (String.singleton separator)) = amountText exponent units separator := by
  have hwhole : '.' ∉ digits (units / 10 ^ exponent) :=
    not_mem_of_isDigit (fun x hx => digits_isDigit hx) (by decide)
  have hfraction : '.' ∉ padded exponent (units % 10 ^ exponent) :=
    not_mem_of_isDigit isDigit_padded (by decide)
  split
  · rename_i hpoint
    have hlist := congrArg String.toList hpoint
    obtain rfl : separator = '.' := by simpa using hlist
    rfl
  · refine (replaceText_singleton _ '.' _).trans (congrArg String.ofList ?_)
    rw [fixedDigits]
    by_cases hzero : exponent = 0
    · rw [if_pos hzero, if_pos hzero, List.append_nil, flatMap_replace_of_not_mem hwhole]
    · rw [if_neg hzero, if_neg hzero, flatMap_replace_between hwhole hfraction,
        String.toList_singleton, List.singleton_append]

/-- The text of an amount has what the context keeps of it. -/
theorem decimalText_eq {n : Int} (hn : 0 ≤ n) {currency : String} {exponent : Nat}
    (hcurrency : currencyExponent currency = some exponent) (separator : Char) :
    decimalText n currency (String.singleton separator) =
      if overflows ((keptUnits n : Rat) * (10 : Rat) ^ (-(exponent : Int))) then
        .error (.arithmetic "Overflow")
      else .ok (amountText exponent (keptUnits n).natAbs separator) := by
  have hkept := keptUnits_nonneg hn
  have hscaled : contextRound ((n : Rat) * (10 : Rat) ^ (-(exponent : Int))) =
      (keptUnits n : Rat) * (10 : Rat) ^ (-(exponent : Int)) := by
    rw [contextRound_eq_rounded, rounded_shift, rounded_intCast]
  have hnonneg : (0 : Rat) ≤ (keptUnits n : Rat) * (10 : Rat) ^ (-(exponent : Int)) :=
    mul_nonneg (by exact_mod_cast hkept) (by positivity)
  have hunits : (keptUnits n : Rat) * (10 : Rat) ^ (-(exponent : Int)) * 10 ^ exponent =
      keptUnits n := by
    rw [mul_assoc, ← zpow_natCast, ← zpow_add₀ (by norm_num), neg_add_cancel, zpow_zero, mul_one]
  have htext : fixedPoint exponent ((keptUnits n : Rat) * (10 : Rat) ^ (-(exponent : Int))) =
      String.ofList (fixedDigits exponent (keptUnits n).natAbs) := by
    rw [fixedPoint, if_neg (not_lt.mpr hnonneg), abs_of_nonneg hnonneg, hunits, Numeric.halfEven_intCast,
      List.nil_append]
    congr 2
    omega
  have hexponent : Domain.exponentOf currency = .ok exponent := by
    rw [Domain.exponentOf, hcurrency]
  unfold decimalText
  rw [hexponent]
  simp only [bind, Except.bind, Domain.Decimal.scaleb, hscaled]
  cases overflows ((keptUnits n : Rat) * (10 : Rat) ^ (-(exponent : Int))) with
  | true => rfl
  | false =>
    simp only [Bool.false_eq_true, if_false, pure, Except.pure, htext, replace_point]

/-- An amount that is kept is written with all its digits. -/
theorem decimalText_kept {n : Int} (h : Kept n) (hn : 0 ≤ n) {currency : String} {exponent : Nat}
    (hcurrency : currencyExponent currency = some exponent) (separator : Char) :
    decimalText n currency (String.singleton separator) =
      .ok (amountText exponent n.natAbs separator) := by
  rw [decimalText_eq hn hcurrency, h.keptUnits_eq, overflows_shift h.2]
  rfl

/-! ## Groups of digits -/

/-- A text is parted at the first separator. -/
theorem partition_singleton {before after : List Char} {c : Char} (h : c ∉ before) :
    partition [c] (before ++ c :: after) = (before, after) := by
  induction before with
  | nil => simp [partition]
  | cons x before ih =>
    obtain ⟨hx, hbefore⟩ := List.ne_and_not_mem_of_not_mem_cons h
    simp [partition, hx, ih hbefore]

theorem readInt_digits (n : Nat) : readInt (digits n) = .ok (n : Int) := by
  have hdigit : ∀ c ∈ digits n, c.isDigit = true := fun c hc => digits_isDigit hc
  obtain ⟨first, rest, hdigits, hfirst⟩ := digits_head n
  have hstrip : stripChars (digits n) = digits n :=
    stripChars_eq_self
      (fun c hc => pythonBlank_of_isDigit (hdigit c (List.mem_of_mem_head? hc)))
      fun c hc => pythonBlank_of_isDigit (hdigit c (List.mem_of_getLast? hc))
  have hfilter : (digits n).filter (· != '_') = digits n := by
    refine List.filter_eq_self.mpr fun c hc => bne_iff_ne.mpr fun heq => ?_
    exact absurd (heq ▸ hdigit c hc) (by decide)
  have hsign : takeSign (digits n) = (1, digits n) := by
    rw [hdigits, takeSign]
    · intro rest' heq
      cases heq
      cases hfirst
    · intro rest' heq
      cases heq
      cases hfirst
  have hall : (digits n).all isDecimal = true :=
    List.all_eq_true.mpr fun c hc => isDecimal_of_isDigit (hdigit c hc)
  have hnumber : digitsNumber (digits n) = n := by
    rw [digitsNumber_eq hdigit, digits, Nat.ofDigitChars_ten_toDigits]
  simp only [readInt, hstrip, hfilter, hsign, hall, hnumber, digits_ne_nil, ne_eq,
    not_false_eq_true, and_self, if_true, one_mul]

/-- Whatever takes the commas away and leaves the digits undoes the grouping. -/
theorem grouped_flatMap {text : List Char} {f : Char → List Char} (hcomma : f ',' = [])
    (htext : ∀ x ∈ text, f x = [x]) : (grouped text).flatMap f = text := by
  induction text with
  | nil => rfl
  | cons c rest ih =>
    have hc : f c = [c] := htext c List.mem_cons_self
    have hrest := ih fun x hx => htext x (List.mem_cons_of_mem _ hx)
    rw [grouped]
    split <;> simp [hc, hcomma, hrest]

theorem grouped_head (c : Char) (rest : List Char) :
    ∃ more, grouped (c :: rest) = c :: more := by
  rw [grouped]
  split
  · exact ⟨_, rfl⟩
  · exact ⟨_, rfl⟩

/-! ## The round trip -/

/-- An amount with two places. -/
theorem decimalText_two {amount : Int} (hkept : Kept amount) (hnonneg : 0 ≤ amount) (c : Char) :
    decimalText amount "INR" (String.singleton c) =
      .ok (String.ofList (digits (amount.natAbs / 10 ^ 2) ++
        c :: padded 2 (amount.natAbs % 10 ^ 2))) :=
  decimalText_kept hkept hnonneg (by decide +kernel) c

/-- The whole part of a written amount: its digits, in groups where there is a separator for them. -/
def wholeText (thousands : Option Char) (whole : List Char) : List Char :=
  match thousands with
  | none => whole
  | some c => (grouped whole).flatMap fun x => if x = ',' then [c] else [x]

/-- The text that `_csv_amount` writes: the whole part, grouped or not, and the fraction. -/
theorem csvAmount_eq {amount : Int} (hkept : Kept amount) (hnonneg : 0 ≤ amount) {decimal : Char}
    (hdecimal : decimal.isDigit = false) (dateFormat : String) (thousands : Option Char) :
    csvAmount amount ⟨dateFormat, String.singleton decimal, thousands.map String.singleton⟩ =
      .ok (String.ofList (wholeText thousands (digits (amount.natAbs / 10 ^ 2)) ++
        decimal :: padded 2 (amount.natAbs % 10 ^ 2))) := by
  unfold csvAmount
  simp only [decimalText_two hkept hnonneg, bind, Except.bind]
  cases thousands with
  | none => rfl
  | some c =>
    have hwhole : decimal ∉ digits (amount.natAbs / 10 ^ 2) :=
      not_mem_of_isDigit (fun x hx => digits_isDigit hx) hdecimal
    have hgroups : replaceText (String.ofList (groupedInt ((amount.natAbs / 10 ^ 2 : Nat) : Int))) ","
        (String.singleton c) = String.ofList ((grouped (digits (amount.natAbs / 10 ^ 2))).flatMap
          fun x => if x = ',' then [c] else [x]) := by
      have hplus : ¬ ((amount.natAbs / 10 ^ 2 : Nat) : Int) < 0 := Int.not_lt.mpr (Int.natCast_nonneg _)
      refine (replaceText_singleton _ ',' _).trans ?_
      rw [groupedInt, if_neg hplus, Int.natAbs_natCast, String.toList_singleton, List.nil_append]
    simp only [Option.map_some, String.singleton_ne_empty, if_false, String.toList_singleton,
      String.toList_ofList, partition_singleton hwhole, readInt_digits, hgroups, pure, Except.pure]
    simp [← String.toList_inj, wholeText]

/-- Taking the thousands separator out of a written amount. -/
theorem ungroup {whole fraction : List Char} (hwhole : ∀ x ∈ whole, x.isDigit = true)
    (hfraction : ∀ x ∈ fraction, x.isDigit = true) {decimal c : Char} (hc : c.isDigit = false)
    (hne : c ≠ decimal) :
    ((((grouped whole).flatMap fun x => if x = ',' then [c] else [x]) ++ decimal :: fraction).flatMap
      fun x => if x = c then [] else [x]) = whole ++ decimal :: fraction := by
  have hgroups : ((grouped whole).flatMap fun x => if x = ',' then [c] else [x]).flatMap
      (fun x => if x = c then [] else [x]) = whole := by
    rw [List.flatMap_assoc]
    refine grouped_flatMap (by simp) fun x hx => ?_
    have hcomma : x ≠ ',' := fun heq => absurd (heq ▸ hwhole x hx) (by decide)
    have hother : x ≠ c := fun heq => absurd (heq ▸ hwhole x hx) (by simp [hc])
    simp [hcomma, hother]
  rw [List.flatMap_append, hgroups, List.flatMap_cons, if_neg (Ne.symm hne),
    flatMap_replace_of_not_mem (not_mem_of_isDigit hfraction hc), List.singleton_append]

/-- Putting the point back. -/
theorem replaceText_point {whole fraction : List Char} (hwhole : ∀ x ∈ whole, x.isDigit = true)
    (hfraction : ∀ x ∈ fraction, x.isDigit = true) {decimal : Char}
    (hdecimal : decimal.isDigit = false) :
    replaceText (String.ofList (whole ++ decimal :: fraction)) (String.singleton decimal) "." =
      String.ofList (whole ++ '.' :: fraction) := by
  rw [replaceText_singleton, flatMap_replace_between (not_mem_of_isDigit hwhole hdecimal)
    (not_mem_of_isDigit hfraction hdecimal)]
  rfl

/-- A text that begins and ends with a digit has no blanks around it. -/
theorem strip_ofList {text : List Char} (hfirst : ∀ c ∈ text.head?, c.isDigit = true)
    (hlast : ∀ c ∈ text.getLast?, c.isDigit = true) :
    strip (String.ofList text) = String.ofList text := by
  rw [strip, String.toList_ofList, stripChars_eq_self
    (fun c hc => pythonBlank_of_isDigit (hfirst c hc))
    fun c hc => pythonBlank_of_isDigit (hlast c hc)]

/-- What the normaliser makes of an amount with two places, once it is cleaned. -/
theorem readDecimal_two {n : Nat} (hn : (digits n).length ≤ 1000000) :
    readDecimal (String.ofList (digits (n / 10 ^ 2) ++ '.' :: padded 2 (n % 10 ^ 2))) =
      .finite (n / 10 ^ 2) :=
  @readDecimal_fixedDigits 2 n (by decide) (hn.trans (by decide))

/-- The text that the normaliser hands to the decimal module. -/
def cleanedText (text decimalSeparator : String) (thousandsSeparator : Option String) : String :=
  let cleaned := match thousandsSeparator with
    | some separator =>
      if separator = "" then strip text else replaceText (strip text) separator ""
    | none => strip text
  if decimalSeparator = "." then cleaned else replaceText cleaned decimalSeparator "."

section

variable (lib : TextLibrary) {whole fraction : List Char} {n : Int} {decimal : Char}

/-- What the normaliser makes of a number of hundredths, once its text has only digits and a point. -/
theorem normaliseAmount_of_cleaned {text separator : String} {thousands : Option String}
    (hread : readDecimal (String.ofList (whole ++ '.' :: fraction)) = .finite (n / 10 ^ 2))
    (hsmall : |n| < 10 ^ 28)
    (hcleaned : cleanedText text separator thousands = String.ofList (whole ++ '.' :: fraction)) :
    normaliseAmount { lib with decimal := readDecimal, upper := String.toUpper } text "INR"
      separator thousands = .ok n := by
  have hunits : halfEven ((n : Rat) / 10 ^ 2 * 10 ^ 2) = n := by
    rw [div_mul_cancel₀ _ (by norm_num), Numeric.halfEven_intCast]
  have hlimit : ¬ quantiseLimit ≤ |n| := not_le.mpr hsmall
  cases thousands <;> dsimp only [cleanedText] at hcleaned <;> unfold normaliseAmount <;>
    simp only [hcleaned, hread, currencyExponent_inr, hunits, hlimit, if_false]

/-- The point is put back where the separator is another character. -/
theorem point_restored (hwhole : ∀ x ∈ whole, x.isDigit = true)
    (hfraction : ∀ x ∈ fraction, x.isDigit = true) (hdecimal : decimal.isDigit = false) :
    (if String.singleton decimal = "." then String.ofList (whole ++ decimal :: fraction)
      else replaceText (String.ofList (whole ++ decimal :: fraction)) (String.singleton decimal) ".") =
      String.ofList (whole ++ '.' :: fraction) := by
  split
  · rename_i hpoint
    have hlist := congrArg String.toList hpoint
    obtain rfl : decimal = '.' := by simpa using hlist
    rfl
  · exact replaceText_point hwhole hfraction hdecimal

theorem last_isDigit (hfraction : ∀ x ∈ fraction, x.isDigit = true) (hne : fraction ≠ [])
    (front : List Char) : ∀ c ∈ (front ++ decimal :: fraction).getLast?, c.isDigit = true := by
  intro c hc
  rw [List.getLast?_append_of_ne_nil _ (List.cons_ne_nil _ _),
    List.getLast?_cons_of_ne_nil hne] at hc
  exact hfraction c (List.mem_of_getLast? hc)

/-- The text of an amount without groups. -/
theorem normaliseAmount_plain (hwhole : ∀ x ∈ whole, x.isDigit = true) (hwholene : whole ≠ [])
    (hfraction : ∀ x ∈ fraction, x.isDigit = true) (hne : fraction ≠ [])
    (hread : readDecimal (String.ofList (whole ++ '.' :: fraction)) = .finite (n / 10 ^ 2))
    (hsmall : |n| < 10 ^ 28) (hdecimal : decimal.isDigit = false) :
    normaliseAmount { lib with decimal := readDecimal, upper := String.toUpper }
      (String.ofList (whole ++ decimal :: fraction)) "INR" (String.singleton decimal) none =
        .ok n := by
  have hstrip : strip (String.ofList (whole ++ decimal :: fraction)) =
      String.ofList (whole ++ decimal :: fraction) := by
    refine strip_ofList ?_ (last_isDigit hfraction hne whole)
    obtain ⟨first, rest, rfl⟩ := List.exists_cons_of_ne_nil hwholene
    intro c hc
    cases hc
    exact hwhole first List.mem_cons_self
  refine normaliseAmount_of_cleaned lib hread hsmall ?_
  dsimp only [cleanedText]
  rw [hstrip]
  exact point_restored hwhole hfraction hdecimal

/-- The text of an amount with its groups. -/
theorem normaliseAmount_grouped (hwhole : ∀ x ∈ whole, x.isDigit = true) (hwholene : whole ≠ [])
    (hfraction : ∀ x ∈ fraction, x.isDigit = true) (hne : fraction ≠ [])
    (hread : readDecimal (String.ofList (whole ++ '.' :: fraction)) = .finite (n / 10 ^ 2))
    (hsmall : |n| < 10 ^ 28) (hdecimal : decimal.isDigit = false) {c : Char}
    (hc : c.isDigit = false) (hother : c ≠ decimal) :
    normaliseAmount { lib with decimal := readDecimal, upper := String.toUpper }
      (String.ofList (((grouped whole).flatMap fun x => if x = ',' then [c] else [x]) ++
        decimal :: fraction)) "INR" (String.singleton decimal) (some (String.singleton c)) =
        .ok n := by
  have hstrip : strip (String.ofList (((grouped whole).flatMap fun x =>
      if x = ',' then [c] else [x]) ++ decimal :: fraction)) =
      String.ofList (((grouped whole).flatMap fun x =>
        if x = ',' then [c] else [x]) ++ decimal :: fraction) := by
    refine strip_ofList ?_ (last_isDigit hfraction hne _)
    obtain ⟨first, rest, rfl⟩ := List.exists_cons_of_ne_nil hwholene
    obtain ⟨more, hmore⟩ := grouped_head first rest
    have hfirst := hwhole first List.mem_cons_self
    have hcomma : first ≠ ',' := fun heq => absurd (heq ▸ hfirst) (by decide)
    intro x hx
    rw [hmore, List.flatMap_cons, if_neg hcomma] at hx
    cases hx
    exact hfirst
  refine normaliseAmount_of_cleaned lib hread hsmall ?_
  dsimp only [cleanedText]
  rw [hstrip, if_neg (String.singleton_ne_empty), replaceText_singleton, String.toList_empty,
    ungroup hwhole hfraction hc hother]
  exact point_restored hwhole hfraction hdecimal

end

/-- **Amounts survive the round trip.** -/
theorem normaliseAmount_csvAmount (lib : TextLibrary) {amount : Int} (hnonneg : 0 ≤ amount)
    (hlimit : amount ≤ 2 ^ 63 - 1) {decimal : Char} (hdecimal : decimal.isDigit = false)
    {thousands : Option Char} (hthousands : ∀ c ∈ thousands, c.isDigit = false ∧ c ≠ decimal)
    (dateFormat : String) :
    ∃ text,
      csvAmount amount ⟨dateFormat, String.singleton decimal, thousands.map String.singleton⟩ =
        .ok text ∧
      normaliseAmount { lib with decimal := readDecimal, upper := String.toUpper } text "INR"
        (String.singleton decimal) (thousands.map String.singleton) = .ok amount := by
  have hsmall : |amount| < 10 ^ 28 := by
    rw [abs_of_nonneg hnonneg]
    omega
  have hkept := kept_of_abs_le hsmall.le
  refine ⟨_, csvAmount_eq hkept hnonneg hdecimal dateFormat thousands, ?_⟩
  have hwhole : ∀ x ∈ digits (amount.natAbs / 10 ^ 2), x.isDigit = true :=
    fun x hx => digits_isDigit hx
  have hpadded : padded 2 (amount.natAbs % 10 ^ 2) ≠ [] := by simp [padded]
  have hcast : ((amount.natAbs : Nat) : Rat) = (amount : Rat) := by
    rw [Nat.cast_natAbs, abs_of_nonneg hnonneg]
  have hread := readDecimal_two hkept.length_digits
  rw [hcast] at hread
  cases thousands with
  | none =>
    exact normaliseAmount_plain lib hwhole (digits_ne_nil _) isDigit_padded hpadded hread hsmall
      hdecimal
  | some c =>
    obtain ⟨hc, hne⟩ := hthousands c rfl
    exact normaliseAmount_grouped lib hwhole (digits_ne_nil _) isDigit_padded hpadded hread hsmall
      hdecimal hc hne

/-- A grouped amount with a comma for its point. -/
theorem normaliseAmount_csvAmount_crore :
    ∃ text,
      csvAmount 1234567890 ⟨"%d/%m/%Y", String.singleton ',', some (String.singleton '.')⟩ =
        .ok text ∧
      normaliseAmount { amountLibrary with decimal := readDecimal, upper := String.toUpper } text "INR"
        (String.singleton ',') (some (String.singleton '.')) = .ok 1234567890 := by
  have hthousands : ∀ c ∈ some '.', c.isDigit = false ∧ c ≠ ',' := by
    simp
  exact normaliseAmount_csvAmount amountLibrary (by decide) (by decide) (by decide) hthousands
    "%d/%m/%Y"

end Recon.Samples
