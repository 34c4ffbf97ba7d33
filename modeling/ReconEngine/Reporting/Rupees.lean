import Mathlib.Data.Int.Basic
import Mathlib.Data.List.Basic

/-!
# Amounts in rupees

Reports show paise as rupees with the digits grouped as they are in India: the last three together
and two by two before them.

**The law** (`formatInr_law`): no amount is shown like another, for every amount can be read back
from its text, and the groups are those of the Indian notation.

**What it does not establish.** How other readers take the text: what reads it back is `readInr` of
this module. Amounts of other currencies are shown by their own code and have no law here.
-/

set_option autoImplicit false

namespace Recon

/-! ## Writing -/

/-- The loop that takes two digits at a time off the end, before groups that are done. -/
def pairGroups (head : List Char) (groups : List (List Char)) : List (List Char) :=
  if 2 < head.length then
    pairGroups (head.take (head.length - 2)) (head.drop (head.length - 2) :: groups)
  else if head = [] then groups
  else head :: groups
termination_by head.length
decreasing_by simp only [List.length_take]; omega

/-- The groups of a number's digits. -/
def rupeeGroups (digits : List Char) : List (List Char) :=
  if 3 < digits.length then
    pairGroups (digits.take (digits.length - 3)) [] ++ [digits.drop (digits.length - 3)]
  else [digits]

/-- A number below a hundred in two digits. -/
def twoDigits (n : Nat) : List Char :=
  if n < 10 then '0' :: Nat.toDigits 10 n else Nat.toDigits 10 n

def formatInr (minor : Option Int) : String :=
  match minor with
  | none => "n/a"
  | some minor =>
    let groups := rupeeGroups (Nat.toDigits 10 (minor.natAbs / 100))
    String.ofList ((if minor < 0 then ['-'] else []) ++ '₹' :: ([','].intercalate groups ++
      '.' :: twoDigits (minor.natAbs % 100)))

/-! ## Groups -/

/-- Groups of the Indian notation: a number of at most three digits, or one or two digits, then
pairs, then three. -/
def Indian (groups : List (List Char)) : Prop :=
  (∃ digits, groups = [digits] ∧ digits.length ≤ 3) ∨
    ∃ first pairs last, groups = first :: (pairs ++ [last]) ∧
      (first.length = 1 ∨ first.length = 2) ∧ (∀ pair ∈ pairs, pair.length = 2) ∧
      last.length = 3

theorem pairGroups_flatten (head : List Char) (groups : List (List Char)) :
    (pairGroups head groups).flatten = head ++ groups.flatten := by
  fun_induction pairGroups head groups with
  | case1 head groups hlong ih =>
    rw [ih, List.flatten_cons, ← List.append_assoc, List.take_append_drop]
  | case2 groups _ => rfl
  | case3 head groups _ _ => rfl

/-- Groups of two, behind a first one that may be shorter. -/
theorem pairGroups_shape {head : List Char} (groups : List (List Char)) (h : head ≠ []) :
    ∃ first pairs, pairGroups head groups = first :: (pairs ++ groups) ∧
      (first.length = 1 ∨ first.length = 2) ∧ ∀ pair ∈ pairs, pair.length = 2 := by
  fun_induction pairGroups head groups with
  | case1 head groups hlong ih =>
    have htake : head.take (head.length - 2) ≠ [] := by
      intro hnil
      have hlength := congrArg List.length hnil
      rw [List.length_take, List.length_nil] at hlength
      omega
    obtain ⟨first, pairs, hgroups, hfirst, hpairs⟩ := ih htake
    refine ⟨first, pairs ++ [head.drop (head.length - 2)], ?_, hfirst, ?_⟩
    · rw [hgroups, List.append_assoc]
      rfl
    · intro pair hpair
      rcases List.mem_append.mp hpair with hpair | hpair
      · exact hpairs pair hpair
      · rw [List.mem_singleton.mp hpair, List.length_drop]
        omega
  | case2 groups hshort => exact absurd rfl h
  | case3 head groups hshort hsome =>
    refine ⟨head, [], rfl, ?_, by simp⟩
    have hpos := List.length_pos_of_ne_nil hsome
    omega

/-- The groups hold the digits of the amount. -/
theorem rupeeGroups_flatten (digits : List Char) : (rupeeGroups digits).flatten = digits := by
  unfold rupeeGroups
  by_cases h : 3 < digits.length
  · rw [if_pos h, List.flatten_append, pairGroups_flatten]
    simp
  · simp [h]

theorem rupeeGroups_indian (digits : List Char) : Indian (rupeeGroups digits) := by
  unfold rupeeGroups
  by_cases h : 3 < digits.length
  · have htake : digits.take (digits.length - 3) ≠ [] := by
      intro hnil
      have hlength := congrArg List.length hnil
      rw [List.length_take, List.length_nil] at hlength
      omega
    obtain ⟨first, pairs, hgroups, hfirst, hpairs⟩ := pairGroups_shape [] htake
    refine .inr ⟨first, pairs, digits.drop (digits.length - 3), ?_, hfirst, hpairs, ?_⟩
    · rw [if_pos h, hgroups]
      simp
    · rw [List.length_drop]
      omega
  · exact .inl ⟨digits, by rw [if_neg h], by omega⟩

/-! ## Reading -/

/-- The amount that a text shows: its digits, with the sign before them. -/
def readInr (text : String) : Option Int :=
  if '₹' ∈ text.toList then
    let amount : Int := (Nat.ofDigitChars 10 (text.toList.filter Char.isDigit) 0 : Nat)
    some (if text.toList.head? = some '-' then -amount else amount)
  else none

theorem filter_toDigits (n : Nat) :
    (Nat.toDigits 10 n).filter Char.isDigit = Nat.toDigits 10 n := by
  rw [List.filter_eq_self]
  intro c hc
  exact Nat.isDigit_of_mem_toDigits (by decide) (by decide) hc

/-- Commas are not digits. -/
theorem filter_intercalate (groups : List (List Char)) :
    ([','].intercalate groups).filter Char.isDigit = groups.flatten.filter Char.isDigit := by
  induction groups with
  | nil => rfl
  | cons group rest ih =>
    cases rest with
    | nil => simp
    | cons second others =>
      have hcomma : Char.isDigit ',' = false := by decide
      rw [List.intercalate_cons_cons, List.filter_append, List.filter_append, ih]
      simp [hcomma]

/-- Two digits are read as the number they were written for. -/
theorem twoDigits_value {n : Nat} (h : n < 100) (init : Nat) :
    (twoDigits n).filter Char.isDigit = twoDigits n ∧
      Nat.ofDigitChars 10 (twoDigits n) init = 100 * init + n := by
  have hzero : Char.isDigit '0' = true := by decide
  have hlength : (twoDigits n).length = 2 := by
    have hall : ∀ m < 100, (twoDigits m).length = 2 := by decide
    exact hall n h
  have hvalue : Nat.ofDigitChars 10 (twoDigits n) 0 = n := by
    unfold twoDigits
    split
    · rw [Nat.ofDigitChars_cons]
      simp
    · simp
  constructor
  · unfold twoDigits
    split
    · rw [List.filter_cons, if_pos hzero, filter_toDigits]
    · exact filter_toDigits n
  · rw [Nat.ofDigitChars_eq_ofDigitChars_zero, hlength, hvalue]

/-- **The law of amounts in rupees.** -/
theorem formatInr_law (minor : Option Int) :
    readInr (formatInr minor) = minor ∧
      ∀ amount ∈ minor, ∃ groups, Indian groups ∧
        groups.flatten = Nat.toDigits 10 (amount.natAbs / 100) ∧
        (formatInr minor).toList = (if amount < 0 then ['-'] else []) ++
          '₹' :: ([','].intercalate groups ++ '.' :: twoDigits (amount.natAbs % 100)) := by
  cases minor with
  | none => exact ⟨by decide, by simp⟩
  | some amount =>
    have hlt : amount.natAbs % 100 < 100 := Nat.mod_lt _ (by decide)
    constructor
    · have hdot : Char.isDigit '.' = false := by decide
      have hrupee : Char.isDigit '₹' = false := by decide
      have hminus : Char.isDigit '-' = false := by decide
      have hdigits : ∀ sign : List Char, sign.filter Char.isDigit = [] →
          (sign ++ '₹' :: ([','].intercalate
            (rupeeGroups (Nat.toDigits 10 (amount.natAbs / 100))) ++
              '.' :: twoDigits (amount.natAbs % 100))).filter Char.isDigit =
            Nat.toDigits 10 (amount.natAbs / 100) ++ twoDigits (amount.natAbs % 100) := by
        intro sign hsign
        simp [List.filter_append, hsign, hrupee, hdot, filter_intercalate,
          rupeeGroups_flatten, filter_toDigits, (twoDigits_value hlt 0).1]
      have hvalue : Nat.ofDigitChars 10 (Nat.toDigits 10 (amount.natAbs / 100) ++
          twoDigits (amount.natAbs % 100)) 0 = amount.natAbs := by
        rw [Nat.ofDigitChars_append, (twoDigits_value hlt _).2]
        simp
        omega
      by_cases hneg : amount < 0
      · have hsome : readInr (formatInr (some amount)) = some (-(amount.natAbs : Int)) := by
          unfold readInr formatInr
          simp only [String.toList_ofList, if_pos hneg, hdigits ['-'] (by simp [hminus]), hvalue]
          simp
        rw [hsome]
        congr 1
        omega
      · have hsome : readInr (formatInr (some amount)) = some (amount.natAbs : Int) := by
          unfold readInr formatInr
          simp only [String.toList_ofList, if_neg hneg, hdigits [] rfl, hvalue]
          simp
        rw [hsome]
        congr 1
        omega
    · intro shown hshown
      obtain rfl : amount = shown := by simpa using hshown
      exact ⟨_, rupeeGroups_indian _, rupeeGroups_flatten _, by
        unfold formatInr
        simp only [String.toList_ofList]⟩

example : formatInr (some 123456789) = "₹12,34,567.89" := by decide +kernel

end Recon
