import ReconEngine.Ingestion.Normalise
import ReconEngine.Json.Text
import ReconEngine.Audit.Canonical
import Mathlib.Data.List.TakeWhile

/-!
# Decimals in texts

`Decimal(text)` reads a number in decimal or scientific notation, and a format with a fixed number of
places writes one. The library of the normaliser leaves the reading open; `readDecimal` is what the
decimal module does.

**The law** (`readDecimal_fixedDigits`): what is written with a fixed number of places is read back.

**What it does not establish.** That a text which is read was written by this writer: many texts are
read as one number. Digits of other scripts are read as the library reads them.
-/

set_option autoImplicit false

namespace Recon

open JsonText

/-! ## Reading -/

/-- The number that a run of digits denotes. -/
def digitsNumber (text : List Char) : Nat :=
  text.foldl (fun n c => 10 * n + (decimalValue c).getD 0) 0

def takeSign : List Char → Int × List Char
  | '-' :: rest => (-1, rest)
  | '+' :: rest => (1, rest)
  | text => (1, text)

/-- An infinity or a NaN, in letters of either case. -/
def readSpecial (text : List Char) : DecimalText :=
  let letters := text.map Char.toLower
  if letters = "inf".toList ∨ letters = "infinity".toList then .infinite
  else if "nan".toList.isPrefixOf letters && (text.drop 3).all isDecimal then .nan
  else if "snan".toList.isPrefixOf letters && (text.drop 4).all isDecimal then .signalingNan
  else .invalid

/-- The exponent after the digits, zero where nothing follows them. -/
def readExponent : List Char → Option Int
  | [] => some 0
  | c :: rest =>
    let signed := takeSign rest
    if (c = 'e' ∨ c = 'E') ∧ signed.2 ≠ [] ∧ signed.2.all isDecimal then
      some (signed.1 * digitsNumber signed.2)
    else none

/-- The exponents that the module can hold, of the first and of the last digit. -/
def maxEmax : Int := 999999999999999999

def minEtiny : Int := -1999999999999999997

/-- The number of some digits before and after the point. -/
def readNumber (sign : Int) (whole fraction : List Char) (exponent : Int) : DecimalText :=
  let coefficient := digitsNumber (whole ++ fraction)
  let last := exponent - fraction.length
  if minEtiny ≤ last ∧ last + (digits coefficient).length - 1 ≤ maxEmax then
    .finite (sign * coefficient * (10 : Rat) ^ last)
  else .invalid

/-- The digits after a point, and what follows them. -/
def takeFraction : List Char → List Char × List Char
  | '.' :: rest => (rest.takeWhile isDecimal, rest.dropWhile isDecimal)
  | text => ([], text)

/-- `Decimal(text)`. -/
def readDecimal (text : String) : DecimalText :=
  let signed := takeSign ((stripChars text.toList).filter (· != '_'))
  let whole := signed.2.takeWhile isDecimal
  let tail := takeFraction (signed.2.dropWhile isDecimal)
  if whole ++ tail.1 = [] then readSpecial signed.2
  else match readExponent tail.2 with
    | some exponent => readNumber signed.1 whole tail.1 exponent
    | none => .invalid

/-! ## Writing -/

/-- A number of units of the last place, with its point. -/
def fixedDigits (places units : Nat) : List Char :=
  digits (units / 10 ^ places) ++
    if places = 0 then [] else '.' :: padded places (units % 10 ^ places)

/-- `f"{value:.{places}f}"`. -/
def fixedPoint (places : Nat) (value : Rat) : String :=
  String.ofList ((if value < 0 then ['-'] else []) ++
    fixedDigits places (halfEven (|value| * 10 ^ places)).toNat)

/-! ## Digits -/

/-- The ASCII digits are the first of the decimal characters. -/
theorem decimalValue_of_isDigit {c : Char} (h : c.isDigit = true) :
    decimalValue c = some (c.toNat - '0'.toNat) := by
  obtain ⟨hlow, hhigh⟩ := Char.isDigit_iff_toNat.mp h
  have hzeros : decimalZeros = 0x30 :: decimalZeros.tail := rfl
  have hfind := List.find?_cons_of_pos
    (p := fun first => decide (first ≤ c.toNat ∧ c.toNat < first + 10)) (a := 0x30)
    (l := decimalZeros.tail) (decide_eq_true ⟨hlow, Nat.lt_succ_of_le hhigh⟩)
  rw [decimalValue, hzeros, hfind]
  rfl

theorem isDecimal_of_isDigit {c : Char} (h : c.isDigit = true) : isDecimal c = true := by
  rw [isDecimal, decimalValue_of_isDigit h]
  rfl

/-- Digits are read as the number they write. -/
theorem digitsNumber_eq {text : List Char} (h : ∀ c ∈ text, c.isDigit = true) :
    digitsNumber text = Nat.ofDigitChars 10 text 0 := by
  rw [digitsNumber, Nat.ofDigitChars_eq_foldl]
  refine List.foldl_ext _ _ _ fun n c hc => ?_
  rw [decimalValue_of_isDigit (h c hc), Option.getD_some]

theorem pythonBlank_of_isDigit {c : Char} (h : c.isDigit = true) : pythonBlank c = false := by
  have htable : ∀ n, 0x30 ≤ n → n ≤ 0x39 → [0x09, 0x0a, 0x0b, 0x0c, 0x0d, 0x1c, 0x1d, 0x1e, 0x1f,
      0x20, 0x85, 0xa0, 0x1680, 0x2000, 0x2001, 0x2002, 0x2003, 0x2004, 0x2005, 0x2006, 0x2007,
      0x2008, 0x2009, 0x200a, 0x2028, 0x2029, 0x202f, 0x205f, 0x3000].contains n = false := by
    intro n hlow hhigh
    interval_cases n <;> rfl
  obtain ⟨hlow, hhigh⟩ := Char.isDigit_iff_toNat.mp h
  exact htable c.toNat hlow hhigh

theorem isDigit_padded {width n : Nat} : ∀ c ∈ padded width n, c.isDigit = true := by
  have htable : ∀ d < 10, (Nat.digitChar d).isDigit = true := by decide
  induction width generalizing n with
  | zero => simp [padded]
  | succ width ih =>
    intro c hc
    rw [padded, List.mem_append, List.mem_singleton] at hc
    rcases hc with hc | rfl
    · exact ih c hc
    · exact htable _ (Nat.mod_lt n (by decide))

/-- Padding with zeros changes no number. -/
theorem ofDigitChars_padded (width n : Nat) :
    Nat.ofDigitChars 10 (padded width n) 0 = n % 10 ^ width := by
  induction width generalizing n with
  | zero => simp [padded, Nat.mod_one]
  | succ width ih =>
    have hdigit : n % 10 < 10 := Nat.mod_lt n (by decide)
    rw [padded, Nat.ofDigitChars_append, ih, Nat.ofDigitChars_cons_digitChar_of_lt_ten hdigit,
      Nat.ofDigitChars_nil, Nat.pow_succ, Nat.mul_comm (10 ^ width), Nat.mod_mul]
    omega

/-- The digits of a number in two parts are the number. -/
theorem digitsNumber_split (places units : Nat) :
    digitsNumber (digits (units / 10 ^ places) ++ padded places (units % 10 ^ places)) = units := by
  have hdigits : ∀ c ∈ digits (units / 10 ^ places) ++ padded places (units % 10 ^ places),
      c.isDigit = true := by
    intro c hc
    rcases List.mem_append.mp hc with hwhole | hfraction
    · exact digits_isDigit hwhole
    · exact isDigit_padded c hfraction
  rw [digitsNumber_eq hdigits, Nat.ofDigitChars_append, digits, Nat.ofDigitChars_ten_toDigits,
    Nat.ofDigitChars_eq_ofDigitChars_zero, padded_length, ofDigitChars_padded, Nat.mod_mod]
  exact Nat.div_add_mod units (10 ^ places)

/-! ## A written number is read -/

/-- Nothing is stripped where there is no blank at either end. -/
theorem stripChars_eq_self {text : List Char} (hfirst : ∀ c ∈ text.head?, pythonBlank c = false)
    (hlast : ∀ c ∈ text.getLast?, pythonBlank c = false) : stripChars text = text := by
  have hdrop : ∀ {text : List Char}, (∀ c ∈ text.head?, pythonBlank c = false) →
      text.dropWhile pythonBlank = text := by
    intro text h
    cases text with
    | nil => rfl
    | cons c text => simp [h c rfl]
  rw [stripChars, hdrop hfirst, hdrop (by simpa using hlast), List.reverse_reverse]

/-- Every character of a written number is a digit or the point. -/
theorem mem_fixedDigits {places units : Nat} {c : Char} (h : c ∈ fixedDigits places units) :
    c.isDigit = true ∨ c = '.' := by
  rw [fixedDigits, List.mem_append] at h
  rcases h with hwhole | hrest
  · exact Or.inl (digits_isDigit hwhole)
  · split at hrest
    · cases hrest
    · rcases List.mem_cons.mp hrest with hpoint | hfraction
      · exact Or.inr hpoint
      · exact Or.inl (isDigit_padded c hfraction)

theorem fixedDigits_head (places units : Nat) :
    ∃ c rest, fixedDigits places units = c :: rest ∧ c.isDigit = true := by
  obtain ⟨c, rest, hdigits, hc⟩ := digits_head (units / 10 ^ places)
  exact ⟨c, _, by rw [fixedDigits, hdigits, List.cons_append], hc⟩

theorem fixedDigits_last {places units : Nat} :
    ∀ c ∈ (fixedDigits places units).getLast?, c.isDigit = true := by
  intro c hc
  by_cases hplaces : places = 0
  · rw [fixedDigits, if_pos hplaces, List.append_nil] at hc
    exact digits_isDigit (List.mem_of_getLast? hc)
  · obtain ⟨width, rfl⟩ := Nat.exists_eq_succ_of_ne_zero hplaces
    have hne : padded (width + 1) (units % 10 ^ (width + 1)) ≠ [] := by simp [padded]
    rw [fixedDigits, if_neg hplaces, List.getLast?_append_of_ne_nil _ (List.cons_ne_nil _ _),
      List.getLast?_cons_of_ne_nil hne] at hc
    exact isDigit_padded c (List.mem_of_getLast? hc)

/-- A written number has no blanks around it. -/
theorem stripChars_fixedDigits (places units : Nat) :
    stripChars (fixedDigits places units) = fixedDigits places units := by
  obtain ⟨c, rest, htext, hc⟩ := fixedDigits_head places units
  refine stripChars_eq_self ?_ fun c hc => pythonBlank_of_isDigit (fixedDigits_last c hc)
  intro c' hc'
  rw [htext] at hc'
  cases hc'
  exact pythonBlank_of_isDigit hc

/-- **What is written with a fixed number of places is read back.** -/
theorem readDecimal_fixedDigits {places units : Nat} (hplaces : places ≤ 1999999999999999997)
    (hshort : (digits units).length ≤ 999999999999999999) :
    readDecimal (String.ofList (fixedDigits places units)) = .finite (units / 10 ^ places) := by
  have hnone : ∀ c ∈ fixedDigits places units, (c != '_') = true := by
    intro c hc
    rcases mem_fixedDigits hc with hdigit | rfl
    · exact bne_iff_ne.mpr fun h => absurd (h ▸ hdigit) (by decide)
    · rfl
  have hsign : takeSign (fixedDigits places units) = (1, fixedDigits places units) := by
    obtain ⟨c, rest, htext, hc⟩ := fixedDigits_head places units
    rw [htext, takeSign]
    · rintro rest' heq
      cases heq
      cases hc
    · rintro rest' heq
      cases heq
      cases hc
  have hwhole : ∀ c ∈ digits (units / 10 ^ places), isDecimal c = true :=
    fun c hc => isDecimal_of_isDigit (digits_isDigit hc)
  have hfraction : ∀ c ∈ padded places (units % 10 ^ places), isDecimal c = true :=
    fun c hc => isDecimal_of_isDigit (isDigit_padded c hc)
  have htail : (fixedDigits places units).takeWhile isDecimal = digits (units / 10 ^ places) ∧
      takeFraction ((fixedDigits places units).dropWhile isDecimal) =
        (padded places (units % 10 ^ places), []) := by
    unfold fixedDigits
    rw [List.takeWhile_append_of_pos hwhole, List.dropWhile_append_of_pos hwhole]
    by_cases hzero : places = 0
    · subst hzero
      exact ⟨List.append_nil _, rfl⟩
    · have hpoint : isDecimal '.' = false := by decide
      rw [if_neg hzero, List.takeWhile_cons_of_neg (by simp [hpoint]),
        List.dropWhile_cons_of_neg (by simp [hpoint]), takeFraction,
        List.takeWhile_eq_self_iff.mpr hfraction, List.dropWhile_eq_nil_iff.mpr hfraction]
      exact ⟨List.append_nil _, rfl⟩
  have hne : digits (units / 10 ^ places) ++ padded places (units % 10 ^ places) ≠ [] := by
    simp [digits_ne_nil]
  unfold readDecimal
  rw [String.toList_ofList, stripChars_fixedDigits, List.filter_eq_self.mpr hnone, hsign]
  simp only [htail.1, htail.2, hne, if_false, readExponent, readNumber, digitsNumber_split,
    padded_length]
  have hfits : minEtiny ≤ 0 - (places : Int) ∧
      0 - (places : Int) + (digits units).length - 1 ≤ maxEmax := by
    unfold minEtiny maxEmax
    omega
  rw [if_pos hfits, zero_sub, zpow_neg, zpow_natCast, Int.cast_one, one_mul, div_eq_mul_inv]

end Recon
