import ReconEngine.Ingestion.DecimalNotation
import ReconEngine.Runs.Backlog

/-!
# Days in texts

`strptime` turns a format into a pattern of numbers, takes the first match of the pattern at the
beginning of a text and refuses the text when something is left of it. The library of the normaliser
leaves the reading open; `strptimeDay` is what it does for the two formats of statements.

**The laws** (`strptimeDay_compact`, `strptimeDay_isoformat`): a day is read back from its text, in the
format with two digits for the year as far as these tell the years apart.

**What they do not establish.** How a day is read in any other format of a bank's configuration: the
normaliser keeps that as a parameter, and only the writers of samples use these two.
-/

set_option autoImplicit false

namespace Recon

open JsonText

/-! ## The calendar -/

/-- The day of a date, counted from 1970-01-01, in years that begin in March. -/
def daysOfCivil (year month day : Int) : Int :=
  let y := if month ≤ 2 then year - 1 else year
  let m := if month ≤ 2 then month + 9 else month - 3
  y / 400 * 146097 + y % 400 * 365 + y % 400 / 4 - y % 400 / 100 + (153 * m + 2) / 5 + day - 1 - 719468

/-- `date(year, month, day)`; a day that the month does not have is refused. -/
def dateOf (year month day : Int) : Option Date :=
  let days := daysOfCivil year month day
  if 1 ≤ year ∧ year ≤ 9999 ∧ civil days = (year, month, day) then some (days + 719163) else none

def yearOf (day : Date) : Int := (civil (day - 719163)).1

def monthOf (day : Date) : Int := (civil (day - 719163)).2.1

def dayOf (day : Date) : Int := (civil (day - 719163)).2.2

/-- The months and days of the calendar. -/
theorem civil_bounds (days : Int) :
    (1 ≤ (civil days).2.1 ∧ (civil days).2.1 ≤ 12) ∧ 1 ≤ (civil days).2.2 ∧ (civil days).2.2 ≤ 31 := by
  obtain ⟨e, c, q, y, o, m, hc, hq, hy, ho, hm, hdays, hciv⟩ := civil_parts days
  have hm' : 0 ≤ m ∧ m ≤ 11 := by omega
  rw [hciv]
  refine ⟨?_, ?_⟩
  · show 1 ≤ (if m < 10 then m + 3 else m - 9) ∧ (if m < 10 then m + 3 else m - 9) ≤ 12
    split <;> omega
  · show 1 ≤ o - (153 * m + 2) / 5 + 1 ∧ o - (153 * m + 2) / 5 + 1 ≤ 31
    omega

/-- The counts that a year is made of. -/
theorem year_parts {e c q y : Int} (hc : 0 ≤ c ∧ c ≤ 3) (hq : 0 ≤ q ∧ q ≤ 24) (hy : 0 ≤ y ∧ y ≤ 3) :
    (e * 400 + c * 100 + q * 4 + y) / 400 = e ∧
      (e * 400 + c * 100 + q * 4 + y) % 400 = c * 100 + q * 4 + y ∧
      (c * 100 + q * 4 + y) / 4 = c * 25 + q ∧ (c * 100 + q * 4 + y) / 100 = c := by
  refine ⟨?_, ?_, ?_, ?_⟩ <;> omega

/-- Days and dates of the calendar are inverse. -/
theorem daysOfCivil_civil (days : Int) :
    daysOfCivil (civil days).1 (civil days).2.1 (civil days).2.2 = days := by
  obtain ⟨e, c, q, y, o, m, hc, hq, hy, ho, hm, hdays, hciv⟩ := civil_parts days
  have hm' : 0 ≤ m ∧ m ≤ 11 := by omega
  obtain ⟨hera, hrest, hfours, hhundreds⟩ := year_parts (e := e) hc hq hy
  rw [hciv]
  unfold daysOfCivil
  by_cases hlate : m < 10
  · have hmonth : ¬ m + 3 ≤ 2 := by omega
    simp only [hlate, if_true, hmonth, if_false, hera, hrest, hfours, hhundreds, add_sub_cancel_right]
    omega
  · have hmonth : m - 9 ≤ 2 := by omega
    simp only [hlate, if_false, hmonth, if_true, add_sub_cancel_right, hera, hrest, hfours,
      hhundreds, sub_add_cancel]
    omega

/-- A date is made again from its parts. -/
theorem dateOf_parts {day : Date} (hyear : 1 ≤ yearOf day ∧ yearOf day ≤ 9999) :
    dateOf (yearOf day) (monthOf day) (dayOf day) = some day := by
  have hdays : daysOfCivil (yearOf day) (monthOf day) (dayOf day) = day - 719163 :=
    daysOfCivil_civil (day - 719163)
  have hvalid : 1 ≤ yearOf day ∧ yearOf day ≤ 9999 ∧
      civil (day - 719163) = (yearOf day, monthOf day, dayOf day) := ⟨hyear.1, hyear.2, rfl⟩
  have hback : (day - 719163 + 719163 : Int) = day := sub_add_cancel _ _
  rw [dateOf, hdays, if_pos hvalid]
  exact congrArg some hback

/-! ## Reading -/

/-- A part of a format: a character, or a number of which each alternative gives the characters in
order. -/
inductive FormatPart where
  | literal (c : Char)
  | number (alternatives : List (List (Char → Bool)))

/-- One of some characters. -/
def among (text : String) (c : Char) : Bool := text.toList.contains c

namespace FormatPart

/-- `%y`. -/
def shortYear : FormatPart := number [[isDecimal, isDecimal]]

/-- `%Y`. -/
def fullYear : FormatPart := number [[isDecimal, isDecimal, isDecimal, isDecimal]]

/-- `%m`. -/
def month : FormatPart :=
  number [[among "1", among "012"], [among "0", among "123456789"], [among "123456789"]]

/-- `%d`. -/
def day : FormatPart :=
  number [[among "3", among "01"], [among "12", isDecimal], [among "0", among "123456789"],
    [among "123456789"], [among " ", among "123456789"]]

end FormatPart

/-- The characters that an alternative takes, and what follows them. -/
def takeClasses : List (Char → Bool) → List Char → Option (List Char × List Char)
  | [], text => some ([], text)
  | _ :: _, [] => none
  | p :: classes, c :: rest =>
    if p c then (takeClasses classes rest).map fun taken => (c :: taken.1, taken.2) else none

/-- The numbers of the first match, and what follows it. -/
def firstMatch : List FormatPart → List Char → Option (List Nat × List Char)
  | [], text => some ([], text)
  | .literal _ :: _, [] => none
  | .literal c :: parts, x :: rest => if x = c then firstMatch parts rest else none
  | .number alternatives :: parts, text => alternatives.findSome? fun classes =>
      (takeClasses classes text).bind fun taken =>
        (firstMatch parts taken.2).map fun found => (digitsNumber taken.1 :: found.1, found.2)

/-- The year that two digits stand for. -/
def pivotYear (year : Nat) : Int := if year ≤ 68 then 2000 + year else 1900 + year

def compactFormat : List FormatPart := [.shortYear, .month, .day]

def isoFormat : List FormatPart := [.fullYear, .literal '-', .month, .literal '-', .day]

/-- `strptime` of the formats of statements; any other format is left to the library. -/
def strptimeDay (other : String → String → Option LocalTime) (text format : String) :
    Option LocalTime :=
  if format = "%y%m%d" then
    match firstMatch compactFormat text.toList with
    | some ([year, month, day], []) => (dateOf (pivotYear year) month day).map (⟨·, 0⟩)
    | _ => none
  else if format = "%Y-%m-%d" then
    match firstMatch isoFormat text.toList with
    | some ([year, month, day], []) => (dateOf year month day).map (⟨·, 0⟩)
    | _ => none
  else other text format

/-! ## Writing -/

/-- `f"{day:%m%d}"`. -/
def shortDay (day : Date) : List Char := padded 2 (monthOf day).toNat ++ padded 2 (dayOf day).toNat

/-- `f"{day:%y%m%d}"`. -/
def compactDay (day : Date) : List Char := padded 2 (yearOf day % 100).toNat ++ shortDay day

/-! ## A written day is read -/

/-- A number of fixed width is read back. -/
theorem digitsNumber_padded {width n : Nat} (h : n < 10 ^ width) :
    digitsNumber (padded width n) = n := by
  rw [digitsNumber_eq isDigit_padded, ofDigitChars_padded, Nat.mod_eq_of_lt h]

theorem isDecimal_padded {width n : Nat} : ∀ c ∈ padded width n, isDecimal c = true :=
  fun c hc => isDecimal_of_isDigit (isDigit_padded c hc)

section

variable {parts : List FormatPart} {rest after : List Char} {found : List Nat}

/-- The first alternative that takes something is the one of the match, when the rest matches. -/
theorem firstMatch_number {alternatives : List (List (Char → Bool))} {text : List Char}
    {taken : List Char × List Char} (htaken : alternatives.findSome? (takeClasses · text) = some taken)
    (hrest : firstMatch parts taken.2 = some (found, after)) :
    firstMatch (.number alternatives :: parts) text = some (digitsNumber taken.1 :: found, after) := by
  rw [firstMatch]
  induction alternatives with
  | nil => cases htaken
  | cons classes alternatives ih =>
    rw [List.findSome?_cons] at htaken ⊢
    cases hclasses : takeClasses classes text with
    | none =>
      rw [hclasses] at htaken
      exact ih htaken
    | some first =>
      rw [hclasses] at htaken
      obtain rfl := Option.some.inj htaken
      simp [hrest]

/-- A number of a directive, written with all its digits. -/
theorem firstMatch_padded {alternatives : List (List (Char → Bool))} {width n : Nat}
    (hn : n < 10 ^ width) (htaken : alternatives.findSome? (takeClasses · (padded width n ++ rest)) =
      some (padded width n, rest)) (hrest : firstMatch parts rest = some (found, after)) :
    firstMatch (.number alternatives :: parts) (padded width n ++ rest) =
      some (n :: found, after) := by
  rw [firstMatch_number htaken hrest, digitsNumber_padded hn]

/-- The pattern takes both digits of a month. -/
theorem firstMatch_month (hrest : firstMatch parts rest = some (found, after)) {m : Nat}
    (hlow : 1 ≤ m) (hhigh : m ≤ 12) :
    firstMatch (.month :: parts) (padded 2 m ++ rest) = some (m :: found, after) := by
  refine firstMatch_padded (by omega) ?_ hrest
  interval_cases m <;> rfl

theorem firstMatch_day (hrest : firstMatch parts rest = some (found, after)) {d : Nat}
    (hlow : 1 ≤ d) (hhigh : d ≤ 31) :
    firstMatch (.day :: parts) (padded 2 d ++ rest) = some (d :: found, after) := by
  refine firstMatch_padded (by omega) ?_ hrest
  interval_cases d <;> rfl

theorem takeClasses_padded (width n : Nat) (rest : List Char) :
    takeClasses (List.replicate width isDecimal) (padded width n ++ rest) =
      some (padded width n, rest) := by
  have hall : ∀ text : List Char, (∀ c ∈ text, isDecimal c = true) →
      takeClasses (List.replicate text.length isDecimal) (text ++ rest) = some (text, rest) := by
    intro text htext
    induction text with
    | nil => rfl
    | cons c text ih =>
      have hc := htext c List.mem_cons_self
      have hmore := ih fun x hx => htext x (List.mem_cons_of_mem _ hx)
      simp [List.replicate_succ, takeClasses, hc, hmore]
  have h := hall (padded width n) isDecimal_padded
  rwa [padded_length] at h

theorem firstMatch_year (hrest : firstMatch parts rest = some (found, after)) {width n : Nat}
    (hn : n < 10 ^ width) :
    firstMatch (.number [List.replicate width isDecimal] :: parts) (padded width n ++ rest) =
      some (n :: found, after) := by
  refine firstMatch_padded hn ?_ hrest
  rw [List.findSome?_singleton, takeClasses_padded]

theorem firstMatch_literal (hrest : firstMatch parts rest = some (found, after)) (c : Char) :
    firstMatch (.literal c :: parts) (c :: rest) = some (found, after) := by
  rw [firstMatch, if_pos rfl, hrest]

end

section

variable {day : Date}

/-- The month and the day of a text, once the year is read. -/
theorem monthOf_bounds (day : Date) : 1 ≤ (monthOf day).toNat ∧ (monthOf day).toNat ≤ 12 := by
  obtain ⟨hmonth, -⟩ := civil_bounds (day - 719163)
  unfold monthOf
  omega

theorem dayOf_bounds (day : Date) : 1 ≤ (dayOf day).toNat ∧ (dayOf day).toNat ≤ 31 := by
  obtain ⟨-, hday⟩ := civil_bounds (day - 719163)
  unfold dayOf
  omega

theorem dateOf_toNat (hyear : 1 ≤ yearOf day ∧ yearOf day ≤ 9999) :
    dateOf (yearOf day) (monthOf day).toNat (dayOf day).toNat = some day := by
  have hmonth : ((monthOf day).toNat : Int) = monthOf day := by
    have := (monthOf_bounds day).1
    omega
  have hday : ((dayOf day).toNat : Int) = dayOf day := by
    have := (dayOf_bounds day).1
    omega
  rw [hmonth, hday, dateOf_parts hyear]

/-- **A day of the hundred years from 1969 is read back from six digits.** -/
theorem strptimeDay_compact (other : String → String → Option LocalTime)
    (hyear : 1969 ≤ yearOf day ∧ yearOf day ≤ 2068) :
    strptimeDay other (String.ofList (compactDay day)) "%y%m%d" = some ⟨day, 0⟩ := by
  have hday : firstMatch [.day] (padded 2 (dayOf day).toNat ++ []) =
      some ([(dayOf day).toNat], []) :=
    firstMatch_day rfl (dayOf_bounds day).1 (dayOf_bounds day).2
  have hmonth := firstMatch_month hday (monthOf_bounds day).1 (monthOf_bounds day).2
  have htwo : (yearOf day % 100).toNat < 10 ^ 2 := by omega
  have hmatch := firstMatch_year hmonth htwo
  rw [List.append_nil] at hmatch
  have hpivot : pivotYear (yearOf day % 100).toNat = yearOf day := by
    unfold pivotYear
    split <;> omega
  rw [strptimeDay, if_pos rfl, String.toList_ofList, compactDay, shortDay]
  have hformat : firstMatch compactFormat (padded 2 (yearOf day % 100).toNat ++
      (padded 2 (monthOf day).toNat ++ padded 2 (dayOf day).toNat)) =
        some ([(yearOf day % 100).toNat, (monthOf day).toNat, (dayOf day).toNat], []) := hmatch
  rw [hformat]
  have hdate : dateOf (yearOf day) (monthOf day).toNat (dayOf day).toNat = some day :=
    dateOf_toNat ⟨by omega, by omega⟩
  simp only [hpivot, hdate, Option.map_some]

/-- The digits of a number with as many of them as the width. -/
theorem digits_eq_padded {w n : Nat} (hlow : 10 ^ w ≤ n) (hhigh : n < 10 ^ (w + 1)) :
    digits n = padded (w + 1) n := by
  induction w generalizing n with
  | zero =>
    rw [digits, Nat.toDigits_of_lt_base (by omega), padded, padded, List.nil_append,
      Nat.mod_eq_of_lt (by omega)]
  | succ w ih =>
    have hten : 10 ≤ n := by
      have := Nat.one_le_pow w 10 (by decide)
      omega
    have hdigits := ih (n := n / 10) (by omega) (by omega)
    rw [digits] at hdigits ⊢
    rw [Nat.toDigits_of_base_le (by decide) hten, hdigits]
    rfl

theorem yearText_four {year : Int} (hyear : 1 ≤ year ∧ year ≤ 9999) :
    yearText year = padded 4 year.toNat := by
  unfold yearText
  split
  · rfl
  · have hnatAbs : year.natAbs = year.toNat := by omega
    have hdigits : digits year.toNat = padded 4 year.toNat :=
      digits_eq_padded (w := 3) (by omega) (by omega)
    rw [renderInt, if_neg (by omega), hnatAbs, hdigits]

theorem isoformat_eq (hyear : 1 ≤ yearOf day ∧ yearOf day ≤ 9999) :
    isoformat day = String.ofList (padded 4 (yearOf day).toNat ++ '-' ::
      (padded 2 (monthOf day).toNat ++ '-' :: padded 2 (dayOf day).toNat)) := by
  rw [← yearText_four hyear]
  rfl

/-- **A day is read back from its ISO text.** -/
theorem strptimeDay_isoformat (other : String → String → Option LocalTime)
    (hyear : 1 ≤ yearOf day ∧ yearOf day ≤ 9999) :
    strptimeDay other (isoformat day) "%Y-%m-%d" = some ⟨day, 0⟩ := by
  have hday : firstMatch [.day] (padded 2 (dayOf day).toNat ++ []) =
      some ([(dayOf day).toNat], []) :=
    firstMatch_day rfl (dayOf_bounds day).1 (dayOf_bounds day).2
  have hmonth := firstMatch_month (firstMatch_literal hday '-') (monthOf_bounds day).1
    (monthOf_bounds day).2
  have hfour : (yearOf day).toNat < 10 ^ 4 := by omega
  have hmatch := firstMatch_year (firstMatch_literal hmonth '-') hfour
  rw [List.append_nil] at hmatch
  have hformat : firstMatch isoFormat (padded 4 (yearOf day).toNat ++ '-' ::
      (padded 2 (monthOf day).toNat ++ '-' :: padded 2 (dayOf day).toNat)) =
        some ([(yearOf day).toNat, (monthOf day).toNat, (dayOf day).toNat], []) := hmatch
  have hcast : ((yearOf day).toNat : Int) = yearOf day := by omega
  have hother : ("%Y-%m-%d" : String) ≠ "%y%m%d" := by decide
  rw [strptimeDay, if_neg hother, if_pos rfl, isoformat_eq hyear, String.toList_ofList, hformat]
  simp only [hcast, dateOf_toNat hyear, Option.map_some]

end

end Recon
