import Mathlib.Data.List.Infix
import ReconEngine.Ingestion.Text

/-!
# Card numbers

Every text of a parsed row passes `mask_pans` before it is stored. One pattern finds the candidates
from left to right, as long as possible and without overlap; a candidate whose digits have the prefix
of a card network and the right check digit is replaced by asterisks and its last four digits, and
any other is left as it is.

**The law** (`number_hidden`): a card number is hidden where every run with its digits lies in a
candidate that is a card number and stands alone, that is, into which no other candidate reaches. It
can be read where it lies in a candidate that stands alone and is none: the pattern takes as many
digits as it can, so twelve and a space before a card number make eighteen digits of it, which are not
looked at again.

The proof says where the search stops. It stops behind whatever comes before a candidate that stands
alone and takes it (`StandsAlone.taken`), so every such candidate is one of the pieces; and a run that
could be read in the output would cover a piece that is left as it is, also where it begins with the
last four digits of a number that was masked (`run_in_stretch`).

**What it does not establish.** Where candidates overlap, it depends on the turns of the search which
of them are looked at, and the law says nothing of them. Whether a number of a card that is masked can
be found out from its last four digits is not asked.
-/

set_option autoImplicit false

namespace Recon.Pan

/-! ## The pattern of a candidate -/

/-- `[ -]`. -/
def isSeparator (c : Char) : Bool := c = ' ' || c = '-'

/-- `[\d-]`, which may stand neither before a candidate nor behind it. -/
def linksDigits (c : Char) : Bool := isDecimal c || c = '-'

/-- `\d[ -]?`, with what it matched and what is left. A separator that is there is always taken:
what follows the group is a digit. -/
def digitGroup : List Char → Option (List Char × List Char)
  | c :: s :: rest =>
    if isDecimal c then
      if isSeparator s then some ([c, s], rest) else some ([c], s :: rest)
    else none
  | [c] => if isDecimal c then some ([c], []) else none
  | [] => none

/-- `(?:\d[ -]?){n}`. -/
def digitGroups : Nat → List Char → Option (List Char × List Char)
  | 0, text => some ([], text)
  | n + 1, text => do
    let (group, rest) ← digitGroup text
    let (groups, rest) ← digitGroups n rest
    return (group ++ groups, rest)

/-- `(?:\d[ -]?){n}\d(?![\d-])`. -/
def candidateOf (n : Nat) (text : List Char) : Option (List Char) := do
  let (groups, rest) ← digitGroups n text
  match rest with
  | d :: after =>
    if isDecimal d ∧ ¬ after.head?.any linksDigits then some (groups ++ [d]) else none
  | [] => none

/-- `_CANDIDATE` at the beginning of a text: the longest number of groups comes first. -/
def candidateAt (text : List Char) : Option (List Char) :=
  [18, 17, 16, 15, 14, 13, 12].findSome? (candidateOf · text)

/-! ## The checks -/

/-- `re.sub(r"\D", "", text)`. -/
def digitsOf (text : List Char) : List Char := text.filter isDecimal

/-- A range of digits in a pattern. -/
def among (low high : Char) (c : Char) : Bool := low ≤ c && c ≤ high

/-- One character in a pattern. -/
def exactly (d : Char) (c : Char) : Bool := c = d

/-- The alternatives of `_NETWORK_PREFIX`, character by character. -/
def networkPrefixes : List (List (Char → Bool)) :=
  [[exactly '4'],
    [exactly '5', among '1' '5'],
    [exactly '2', exactly '2', among '2' '9', among '1' '9'],
    [exactly '2', exactly '2', among '3' '9', isDecimal],
    [exactly '2', among '3' '6', isDecimal, isDecimal],
    [exactly '2', exactly '7', among '0' '1', isDecimal],
    [exactly '2', exactly '7', exactly '2', exactly '0'],
    [exactly '3', among '4' '8'],
    [exactly '3', exactly '5', exactly '2', among '8' '9'],
    [exactly '3', exactly '5', among '3' '8', isDecimal],
    [exactly '6', exactly '0', exactly '1', exactly '1'],
    [exactly '6', exactly '5'],
    [exactly '6', exactly '4', among '4' '9'],
    [exactly '6', exactly '0'],
    [exactly '6', exactly '8', among '1' '2'],
    [exactly '5', exactly '0', exactly '8'],
    [exactly '8', exactly '1'],
    [exactly '8', exactly '2']]

def matchesPrefix : List (Char → Bool) → List Char → Bool
  | [], _ => true
  | test :: tests, c :: rest => test c && matchesPrefix tests rest
  | _ :: _, [] => false

/-- What a digit adds to the sum, at a position counted from the end. -/
def luhnValue (position value : Nat) : Nat :=
  if position % 2 = 1 then if 9 < 2 * value then 2 * value - 9 else 2 * value else value

/-- The sum over the digits, last digit first. -/
def luhnTotal : Nat → List Char → Nat
  | _, [] => 0
  | position, c :: rest =>
    luhnValue position ((decimalValue c).getD 0) + luhnTotal (position + 1) rest

def luhnValid (digits : List Char) : Bool := luhnTotal 0 digits.reverse % 10 = 0

/-- `_is_pan`. -/
def isPan (digits : List Char) : Bool :=
  13 ≤ digits.length && digits.length ≤ 19 && networkPrefixes.any (matchesPrefix · digits) &&
    luhnValid digits

/-! ## Masking -/

/-- What the search makes of a text: characters outside every candidate, and candidates. -/
inductive Piece where
  | char (c : Char)
  | candidate (text : List Char)
deriving DecidableEq, Repr

def Piece.text : Piece → List Char
  | .char c => [c]
  | .candidate text => text

/-- The digits of a piece that is a card number. -/
def Piece.pan? : Piece → Option (List Char)
  | .char _ => none
  | .candidate text => if isPan (digitsOf text) then some (digitsOf text) else none

/-- `digits[-_VISIBLE:]`. -/
def lastFour (digits : List Char) : List Char := digits.drop (digits.length - 4)

/-- The function `replace` of `mask_pans`. -/
def Piece.masked (piece : Piece) : List Char :=
  match piece.pan? with
  | some digits => List.replicate (digits.length - 4) '*' ++ lastFour digits
  | none => piece.text

/-- The search for candidates, from the character before the text and with the number of characters
that the last candidate has still to pass. -/
def pieces : Option Char → Nat → List Char → List Piece
  | _, _, [] => []
  | _, found + 1, c :: rest => pieces (some c) found rest
  | previous, 0, c :: rest =>
    match if previous.any linksDigits then none else candidateAt (c :: rest) with
    | some found => .candidate found :: pieces (some c) (found.length - 1) rest
    | none => .char c :: pieces (some c) 0 rest

/-- `mask_pans`: the text, and how many numbers were masked. -/
def maskPans (text : List Char) : List Char × Nat :=
  let found := pieces none 0 text
  (found.flatMap Piece.masked, found.countP (·.pan?.isSome))

/-! ## Runs and candidates -/

/-- Digits with at most one space or hyphen between two of them. -/
inductive DigitRun : List Char → Prop where
  | last {d : Char} : isDecimal d = true → DigitRun [d]
  | digit {d : Char} {rest : List Char} : isDecimal d = true → DigitRun rest → DigitRun (d :: rest)
  | separated {d s : Char} {rest : List Char} :
    isDecimal d = true → isSeparator s = true → DigitRun rest → DigitRun (d :: s :: rest)

def digitRun : List Char → Bool
  | [] => false
  | [d] => isDecimal d
  | d :: s :: rest => isDecimal d && (digitRun (s :: rest) || isSeparator s && digitRun rest)

/-- The pattern is decided by the recursion. -/
theorem digitRun_iff (p : List Char) : digitRun p = true ↔ DigitRun p := by
  constructor
  · intro h
    fun_induction digitRun p with
    | case1 => nomatch h
    | case2 d => exact .last h
    | case3 d s rest ih ih' =>
      simp only [Bool.and_eq_true, Bool.or_eq_true] at h
      obtain ⟨hd, hrest | ⟨hs, hrest⟩⟩ := h
      · exact .digit hd (ih hrest)
      · exact .separated hd hs (ih' hrest)
  · intro h
    induction h with
    | last hd => exact hd
    | @digit d rest hd hrest ih =>
      cases rest with
      | nil => nomatch ih
      | cons e after => simp [digitRun, hd, ih]
    | separated hd hs _ ih => simp [digitRun, hd, hs, ih]

instance (p : List Char) : Decidable (DigitRun p) := decidable_of_iff _ (digitRun_iff p)

theorem DigitRun.decimal_or_separator {p : List Char} (h : DigitRun p) :
    ∀ c ∈ p, isDecimal c = true ∨ isSeparator c = true := by
  induction h with
  | last hd => simp [hd]
  | digit hd _ ih => simpa [hd] using ih
  | separated hd hs _ ih => simpa [hd, hs] using ih

theorem not_decimal_star : isDecimal '*' = false := by decide

theorem not_decimal_separator {s : Char} (h : isSeparator s = true) : isDecimal s = false := by
  obtain rfl | rfl : s = ' ' ∨ s = '-' := by simpa [isSeparator] using h
  · decide
  · decide

theorem not_separator_decimal {d : Char} (h : isDecimal d = true) : isSeparator d = false := by
  by_contra hs
  have hnot := not_decimal_separator (by simpa using hs)
  simp [h] at hnot

theorem DigitRun.head_decimal {p : List Char} (h : DigitRun p) :
    ∃ d rest, p = d :: rest ∧ isDecimal d = true := by
  cases h with
  | last hd => exact ⟨_, _, rfl, hd⟩
  | digit hd _ => exact ⟨_, _, rfl, hd⟩
  | separated hd _ _ => exact ⟨_, _, rfl, hd⟩

/-- The digits of a run, without what stands between them. -/
theorem digitsOf_cons {d : Char} (hd : isDecimal d = true) (rest : List Char) :
    digitsOf (d :: rest) = d :: digitsOf rest := by
  simp [digitsOf, hd]

theorem digitsOf_separator {s : Char} (hs : isSeparator s = true) (rest : List Char) :
    digitsOf (s :: rest) = digitsOf rest := by
  simp [digitsOf, not_decimal_separator hs]

theorem digitsOf_append (a b : List Char) : digitsOf (a ++ b) = digitsOf a ++ digitsOf b :=
  List.filter_append ..

/-- Neither the text before a number nor the text after it continues its digits. -/
def Apart (u v : List Char) : Prop :=
  u.getLast?.any linksDigits = false ∧ v.head?.any linksDigits = false

instance (u v : List Char) : Decidable (Apart u v) := inferInstanceAs (Decidable (_ ∧ _))

/-- What the pattern takes at `c`, wherever the search is: a run of 13 to 19 digits that neither the
text before it nor the text after it continues. -/
structure CandidateIn (a c b : List Char) : Prop where
  run : DigitRun c
  length : 13 ≤ (digitsOf c).length ∧ (digitsOf c).length ≤ 19
  apart : Apart a b

instance (a c b : List Char) : Decidable (CandidateIn a c b) :=
  decidable_of_iff (DigitRun c ∧ (13 ≤ (digitsOf c).length ∧ (digitsOf c).length ≤ 19) ∧ Apart a b)
    ⟨fun h => ⟨h.1, h.2.1, h.2.2⟩, fun h => ⟨h.run, h.length, h.apart⟩⟩

/-! ## What the pattern takes -/

/-- A candidate is a digit alone, or a group and a candidate. -/
theorem candidateOf_succ (n : Nat) (text : List Char) :
    candidateOf (n + 1) text =
      (digitGroup text).bind fun found => (candidateOf n found.2).map (found.1 ++ ·) := by
  simp only [candidateOf, digitGroups, Option.bind_eq_bind, Option.pure_def, Option.bind_assoc]
  congr 1
  funext found
  cases digitGroups n found.2 with
  | none => simp
  | some groups =>
    cases hrest : groups.2 with
    | nil => simp [hrest]
    | cons d after =>
      by_cases hd : isDecimal d ∧ ¬ after.head?.any linksDigits
      · simp [hrest]
      · simp [hrest]

/-- A group is a digit, and the separator behind it if there is one. -/
theorem digitGroup_cases {text group rest : List Char} (h : digitGroup text = some (group, rest)) :
    (∃ d, isDecimal d = true ∧ group = [d] ∧ text = d :: rest) ∨
      ∃ d s, isDecimal d = true ∧ isSeparator s = true ∧ group = [d, s] ∧ text = d :: s :: rest := by
  fun_cases digitGroup text
  case case1 c s after hc hs =>
    obtain ⟨rfl, rfl⟩ : [c, s] = group ∧ after = rest := by simpa [digitGroup, hc, hs] using h
    exact .inr ⟨c, s, hc, hs, rfl, rfl⟩
  case case2 c s after hc hs =>
    obtain ⟨rfl, rfl⟩ : [c] = group ∧ s :: after = rest := by simpa [digitGroup, hc, hs] using h
    exact .inl ⟨c, hc, rfl, rfl⟩
  case case4 c hc =>
    obtain ⟨rfl, rfl⟩ : [c] = group ∧ [] = rest := by simpa [digitGroup, hc] using h
    exact .inl ⟨c, hc, rfl, rfl⟩
  all_goals simp_all [digitGroup]

/-- With `n` groups the pattern takes a run of one digit more. -/
theorem candidateOf_run {n : Nat} {text c : List Char} (h : candidateOf n text = some c) :
    DigitRun c ∧ (digitsOf c).length = n + 1 ∧
      ∃ after, text = c ++ after ∧ after.head?.any linksDigits = false := by
  induction n generalizing text c with
  | zero =>
    cases text with
    | nil => simp [candidateOf, digitGroups] at h
    | cons d after =>
      by_cases hd : isDecimal d ∧ ¬ after.head?.any linksDigits
      · obtain rfl : [d] = c := by simpa [candidateOf, digitGroups, hd] using h
        exact ⟨.last hd.1, by simp [digitsOf, hd.1], after, rfl, by simpa using hd.2⟩
      · simp only [candidateOf, digitGroups, Option.bind_eq_bind, Option.bind_some,
          if_neg hd, reduceCtorEq] at h
  | succ n ih =>
    rw [candidateOf_succ, Option.bind_eq_some_iff] at h
    obtain ⟨⟨group, rest⟩, hgroup, hmap⟩ := h
    obtain ⟨run, hrun, rfl⟩ := Option.map_eq_some_iff.mp hmap
    obtain ⟨hdigits, hlength, after, hrest, hafter⟩ := ih hrun
    have hrest' : rest = run ++ after := hrest
    rcases digitGroup_cases hgroup with ⟨d, hd, rfl, rfl⟩ | ⟨d, s, hd, hs, rfl, rfl⟩
    · refine ⟨.digit hd hdigits, ?_, after, by rw [hrest']; rfl, hafter⟩
      exact (congrArg List.length (digitsOf_cons hd run)).trans (congrArg (· + 1) hlength)
    · refine ⟨.separated hd hs hdigits, ?_, after, by rw [hrest']; rfl, hafter⟩
      have hdrop : digitsOf (d :: s :: run) = d :: digitsOf run :=
        (digitsOf_cons hd _).trans (congrArg _ (digitsOf_separator hs run))
      exact (congrArg List.length hdrop).trans (congrArg (· + 1) hlength)

/-- A run that nothing continues is taken with as many groups as it has digits but one. -/
theorem DigitRun.candidateOf_eq {c after : List Char} (h : DigitRun c)
    (hafter : after.head?.any linksDigits = false) {n : Nat} (hn : (digitsOf c).length = n + 1) :
    candidateOf n (c ++ after) = some c := by
  induction h generalizing n with
  | @last d hd =>
    obtain rfl : n = 0 := by simpa [digitsOf, hd] using hn.symm
    simp [candidateOf, digitGroups, hd, hafter]
  | @digit d rest hd hrest ih =>
    rw [digitsOf_cons hd, List.length_cons, Nat.succ_inj] at hn
    obtain ⟨e, more, rfl, he⟩ := hrest.head_decimal
    rw [digitsOf_cons he, List.length_cons] at hn
    obtain ⟨m, rfl⟩ : ∃ m, n = m + 1 := ⟨_, hn.symm⟩
    have hgroup : digitGroup (d :: e :: more ++ after) = some ([d], e :: more ++ after) := by
      simp [digitGroup, hd, not_separator_decimal he]
    rw [candidateOf_succ, hgroup, Option.bind_some, ih]
    · rfl
    · rw [digitsOf_cons he, List.length_cons, hn]
  | @separated d s rest hd hs hrest ih =>
    rw [digitsOf_cons hd, digitsOf_separator hs, List.length_cons, Nat.succ_inj] at hn
    obtain ⟨e, more, rfl, he⟩ := hrest.head_decimal
    rw [digitsOf_cons he, List.length_cons] at hn
    obtain ⟨m, rfl⟩ : ∃ m, n = m + 1 := ⟨_, hn.symm⟩
    have hgroup : digitGroup (d :: s :: e :: more ++ after) =
        some ([d, s], e :: more ++ after) := by
      simp [digitGroup, hd, hs]
    rw [candidateOf_succ, hgroup, Option.bind_some, ih]
    · rfl
    · rw [digitsOf_cons he, List.length_cons, hn]

/-- What the pattern takes at the beginning of a text is a candidate there. -/
theorem candidateAt_run {text c : List Char} (h : candidateAt text = some c) :
    DigitRun c ∧ (13 ≤ (digitsOf c).length ∧ (digitsOf c).length ≤ 19) ∧
      ∃ after, text = c ++ after ∧ after.head?.any linksDigits = false := by
  obtain ⟨n, hn, hc⟩ := List.exists_of_findSome?_eq_some h
  obtain ⟨hrun, hlength, hafter⟩ := candidateOf_run hc
  have hbounds : ∀ n ∈ [18, 17, 16, 15, 14, 13, 12], 12 ≤ n ∧ n ≤ 18 := by decide
  obtain ⟨hlow, hhigh⟩ := hbounds n hn
  exact ⟨hrun, ⟨by omega, by omega⟩, hafter⟩

/-- Where a candidate begins the pattern takes it, or one with more digits. -/
theorem candidateAt_longest {c after : List Char} (hrun : DigitRun c)
    (hlength : 13 ≤ (digitsOf c).length ∧ (digitsOf c).length ≤ 19)
    (hafter : after.head?.any linksDigits = false) :
    ∃ c', candidateAt (c ++ after) = some c' ∧
      (c' = c ∨ (digitsOf c).length < (digitsOf c').length) := by
  obtain ⟨n, hn⟩ : ∃ n, (digitsOf c).length = n + 1 := ⟨(digitsOf c).length - 1, by omega⟩
  have htaken := hrun.candidateOf_eq hafter hn
  have hmem : n ∈ [18, 17, 16, 15, 14, 13, 12] := by
    simp only [List.mem_cons, List.not_mem_nil]
    omega
  obtain ⟨more, fewer, hsplit⟩ := List.append_of_mem hmem
  have hdescending : List.Pairwise (· > ·) [18, 17, 16, 15, 14, 13, 12] := by decide
  rw [hsplit, List.pairwise_append] at hdescending
  unfold candidateAt
  rw [hsplit, List.findSome?_append, List.findSome?_cons, htaken]
  cases hlonger : more.findSome? (candidateOf · (c ++ after)) with
  | none => exact ⟨c, rfl, .inl rfl⟩
  | some c' =>
    obtain ⟨m, hm, hc'⟩ := List.exists_of_findSome?_eq_some hlonger
    have hgreater := hdescending.2.2 m hm n List.mem_cons_self
    exact ⟨c', rfl, .inr (by rw [(candidateOf_run hc').2.1]; omega)⟩

/-! ## Where the search stops -/

/-- The step of the search at a character that no candidate has taken. -/
theorem pieces_step (previous : Option Char) (c : Char) (rest : List Char) :
    (previous.any linksDigits = false ∧ ∃ found, candidateAt (c :: rest) = some found ∧
        pieces previous 0 (c :: rest) =
          .candidate found :: pieces (some c) (found.length - 1) rest) ∨
      pieces previous 0 (c :: rest) = .char c :: pieces (some c) 0 rest := by
  rw [pieces]
  cases hlinks : previous.any linksDigits with
  | true => exact .inr rfl
  | false =>
    cases hfound : candidateAt (c :: rest) with
    | none => exact .inr rfl
    | some found => exact .inl ⟨rfl, found, rfl, rfl⟩

/-- A candidate that begins with `c` and is taken leaves its other characters to pass. -/
theorem candidateAt_cons {c : Char} {rest found : List Char} (h : candidateAt (c :: rest) = some found) :
    ∃ more, found = c :: more ∧ more <+: rest := by
  obtain ⟨hrun, -, after, htext, -⟩ := candidateAt_run h
  obtain ⟨d, more, rfl, -⟩ := hrun.head_decimal
  obtain ⟨rfl, rfl⟩ : c = d ∧ rest = more ++ after := by simpa using htext
  exact ⟨more, rfl, List.prefix_append more after⟩

/-- The search stops behind `x`, or a candidate that begins in `x` goes on behind it. -/
theorem pieces_stop (previous : Option Char) (found : Nat) (x y : List Char) (hfound : found ≤ x.length) :
    (∃ before, pieces previous found (x ++ y) =
        before ++ pieces (x.getLast?.or previous) 0 y ∧ before.flatMap Piece.text = x.drop found) ∨
      ∃ before c after, pieces previous found (x ++ y) = before ++ .candidate c :: after ∧
        found + (before.flatMap Piece.text).length < x.length ∧
        x.length < found + (before.flatMap Piece.text).length + c.length := by
  induction x generalizing previous found with
  | nil =>
    obtain rfl : found = 0 := Nat.le_zero.mp hfound
    exact .inl ⟨[], rfl, rfl⟩
  | cons d x ih =>
    have hlast : (d :: x).getLast?.or previous = x.getLast?.or (some d) := by
      rw [List.getLast?_cons]
      cases x.getLast? <;> rfl
    rw [hlast]
    cases found with
    | succ found =>
      rw [List.cons_append, pieces]
      rcases ih (some d) found (Nat.le_of_succ_le_succ hfound) with
        ⟨before, heq, htext⟩ | ⟨before, c, after, heq, hbegin, hend⟩
      · exact .inl ⟨before, heq, htext⟩
      · refine .inr ⟨before, c, after, heq, ?_, ?_⟩
        · rw [List.length_cons]
          omega
        · rw [List.length_cons]
          omega
    | zero =>
      rw [List.cons_append]
      rcases pieces_step previous d (x ++ y) with ⟨-, taken, hat, hstep⟩ | hstep
      · obtain ⟨more, rfl, hhead⟩ := candidateAt_cons hat
        rw [hstep, List.length_cons, Nat.add_sub_cancel]
        by_cases hinside : more.length ≤ x.length
        · obtain ⟨left, hleft⟩ :=
            List.prefix_of_prefix_length_le hhead (List.prefix_append x y) hinside
          rcases ih (some d) more.length hinside with
            ⟨before, heq, htext⟩ | ⟨before, c, after, heq, hbegin, hend⟩
          · refine .inl ⟨.candidate (d :: more) :: before, by rw [heq]; rfl, ?_⟩
            rw [List.flatMap_cons, htext, ← hleft, List.drop_left]
            rfl
          · refine .inr ⟨.candidate (d :: more) :: before, c, after, by rw [heq]; rfl, ?_, ?_⟩
            · rw [List.flatMap_cons, List.length_append, List.length_cons]
              show 0 + ((more.length + 1) + _) < _
              omega
            · rw [List.flatMap_cons, List.length_append, List.length_cons]
              show _ < 0 + ((more.length + 1) + _) + _
              omega
        · refine .inr ⟨[], d :: more, _, rfl, ?_, ?_⟩
          · exact Nat.succ_pos _
          · rw [List.length_cons, List.length_cons, List.flatMap_nil, List.length_nil]
            omega
      · rw [hstep]
        rcases ih (some d) 0 (Nat.zero_le _) with
          ⟨before, heq, htext⟩ | ⟨before, c, after, heq, hbegin, hend⟩
        · refine .inl ⟨.char d :: before, by rw [heq]; rfl, ?_⟩
          rw [List.flatMap_cons, htext]
          rfl
        · refine .inr ⟨.char d :: before, c, after, by rw [heq]; rfl, ?_, ?_⟩
          · rw [List.flatMap_cons, List.length_append, List.length_cons]
            show 0 + (1 + _) < _
            omega
          · rw [List.flatMap_cons, List.length_append, List.length_cons]
            show _ < 0 + (1 + _) + _
            omega

/-- Every candidate among the pieces is one where it stands. -/
theorem pieces_candidate (previous : Option Char) (found : Nat) (text : List Char)
    {before after : List Piece} {c : List Char}
    (h : pieces previous found text = before ++ .candidate c :: after) :
    ∃ x y, text = x ++ c ++ y ∧ x.length = found + (before.flatMap Piece.text).length ∧
      DigitRun c ∧ (13 ≤ (digitsOf c).length ∧ (digitsOf c).length ≤ 19) ∧
      (x.getLast?.or previous).any linksDigits = false ∧ y.head?.any linksDigits = false := by
  induction text generalizing previous found before with
  | nil =>
    rw [pieces] at h
    simp at h
  | cons d text ih =>
    have hpass : ∀ found' before', pieces (some d) found' text = before' ++ .candidate c :: after →
        ∃ x y, d :: text = x ++ c ++ y ∧
          x.length = found' + (before'.flatMap Piece.text).length + 1 ∧ DigitRun c ∧
          (13 ≤ (digitsOf c).length ∧ (digitsOf c).length ≤ 19) ∧
          (x.getLast?.or previous).any linksDigits = false ∧ y.head?.any linksDigits = false := by
      intro found' before' hrest
      obtain ⟨x, y, htext, hx, hrun, hlength, hlast, hy⟩ := ih (some d) found' hrest
      refine ⟨d :: x, y, by rw [htext]; rfl, by rw [List.length_cons, hx], hrun, hlength, ?_, hy⟩
      have hsame : (d :: x).getLast?.or previous = x.getLast?.or (some d) := by
        rw [List.getLast?_cons]
        cases x.getLast? <;> rfl
      rw [hsame]
      exact hlast
    cases found with
    | succ found =>
      rw [pieces] at h
      obtain ⟨x, y, htext, hx, hrest⟩ := hpass found before h
      exact ⟨x, y, htext, by omega, hrest⟩
    | zero =>
      rcases pieces_step previous d text with ⟨hlinks, taken, hat, hstep⟩ | hstep
      · rw [hstep] at h
        obtain ⟨more, rfl, -⟩ := candidateAt_cons hat
        cases before with
        | nil =>
          obtain ⟨hc, -⟩ := List.cons.inj h
          obtain rfl : d :: more = c := Piece.candidate.inj hc
          obtain ⟨hrun, hlength, after', htext, hafter⟩ := candidateAt_run hat
          exact ⟨[], after', htext, rfl, hrun, hlength, hlinks, hafter⟩
        | cons piece before =>
          obtain ⟨rfl, hrest⟩ := List.cons.inj h
          obtain ⟨x, y, htext, hx, hfacts⟩ := hpass _ before hrest
          refine ⟨x, y, htext, ?_, hfacts⟩
          rw [List.flatMap_cons, List.length_append]
          show x.length = 0 + ((d :: more).length + _)
          rw [List.length_cons] at hx ⊢
          omega
      · rw [hstep] at h
        cases before with
        | nil =>
          obtain ⟨hc, -⟩ := List.cons.inj h
          cases hc
        | cons piece before =>
          obtain ⟨rfl, hrest⟩ := List.cons.inj h
          obtain ⟨x, y, htext, hx, hfacts⟩ := hpass 0 before hrest
          refine ⟨x, y, htext, ?_, hfacts⟩
          rw [List.flatMap_cons, List.length_append]
          show x.length = 0 + (1 + _)
          omega

/-- **The search loses nothing.** The pieces are the text, once the last candidate has passed. -/
theorem pieces_text (previous : Option Char) (found : Nat) (text : List Char) :
    (pieces previous found text).flatMap Piece.text = text.drop found := by
  induction text generalizing previous found with
  | nil => simp [pieces]
  | cons c rest ih =>
    cases found with
    | succ found => simpa [pieces] using ih (some c) found
    | zero =>
      rcases pieces_step previous c rest with ⟨-, taken, hat, hstep⟩ | hstep
      · obtain ⟨more, rfl, after, rfl⟩ := candidateAt_cons hat
        simp [hstep, ih, Piece.text]
      · simp [hstep, ih, Piece.text]

/-! ## Candidates that stand alone -/

/-- A candidate into which no other reaches: what overlaps it lies within it. -/
structure StandsAlone (a c b : List Char) : Prop extends CandidateIn a c b where
  unreached : ∀ a' c' b', a' ++ c' ++ b' = a ++ c ++ b → CandidateIn a' c' b' →
    a'.length < a.length + c.length → a.length < a'.length + c'.length →
      a.length ≤ a'.length ∧ a'.length + c'.length ≤ a.length + c.length

/-- A candidate among the pieces is one of the text. -/
theorem pieces_candidate_in {text : List Char} {before after : List Piece} {c : List Char}
    (h : pieces none 0 text = before ++ .candidate c :: after) :
    ∃ y, text = before.flatMap Piece.text ++ c ++ y ∧
      CandidateIn (before.flatMap Piece.text) c y := by
  obtain ⟨x, y, htext, hx, hrun, hlength, hlast, hy⟩ := pieces_candidate none 0 text h
  have hpieces := pieces_text none 0 text
  rw [h, List.flatMap_append, List.drop_zero, htext, List.append_assoc] at hpieces
  obtain ⟨rfl, -⟩ := List.append_inj hpieces (by omega)
  rw [Option.or_none] at hlast
  exact ⟨y, htext, hrun, hlength, hlast, hy⟩

/-- **The search takes what stands alone.** -/
theorem StandsAlone.taken {a c b : List Char} (h : StandsAlone a c b) :
    ∃ before after, pieces none 0 (a ++ c ++ b) = before ++ .candidate c :: after ∧
      before.flatMap Piece.text = a := by
  rw [List.append_assoc]
  rcases pieces_stop none 0 a (c ++ b) (Nat.zero_le _) with
    ⟨before, hstop, htext⟩ | ⟨before, c', after, hstop, hbegin, hend⟩
  · obtain ⟨d, rest, rfl, -⟩ := h.run.head_decimal
    obtain ⟨taken, hat, hsame⟩ := candidateAt_longest h.run h.length h.apart.2
    have htaken : taken = d :: rest := by
      apply hsame.resolve_right
      intro hlonger
      obtain ⟨hrun, hlength, after, hafter, hlinks⟩ := candidateAt_run hat
      have heq : a ++ taken ++ after = a ++ (d :: rest) ++ b := by
        rw [List.append_assoc, List.append_assoc, hafter]
      have hpositive : 0 < taken.length := by
        obtain ⟨e, more, rfl, -⟩ := hrun.head_decimal
        exact Nat.succ_pos _
      have hwithin := h.unreached a taken after heq ⟨hrun, hlength, h.apart.1, hlinks⟩
        (by simp) (by omega)
      -- A part of the candidate has no more digits than the whole.
      have hhead : taken <+: d :: rest := by
        apply List.prefix_of_prefix_length_le (List.prefix_append taken after)
        · rw [← hafter]
          exact List.prefix_append (d :: rest) b
        · omega
      exact absurd ((hhead.filter _).length_le) (Nat.not_le.mpr hlonger)
    have hlast : (a.getLast?.or none).any linksDigits = false := by
      rw [Option.or_none]
      exact h.apart.1
    rw [htaken] at hat
    refine ⟨before, pieces (some d) rest.length (rest ++ b), ?_, htext⟩
    rw [hstop, List.cons_append, pieces, hlast]
    simp only [Bool.false_eq_true, if_false]
    rw [show candidateAt (d :: (rest ++ b)) = some (d :: rest) from hat]
    rfl
  · obtain ⟨y, htext, hcandidate⟩ := pieces_candidate_in hstop
    have hwithin := h.unreached _ c' y (by rw [← htext, List.append_assoc]) hcandidate
      (by omega) (by omega)
    omega

/-! ## What stays readable -/

/-- The stretches of a text that are not replaced, after what can be read before it. A number that
is masked ends one stretch, and its last four digits begin the next. -/
def clearStretches : List Char → List Piece → List (List Char)
  | clear, [] => [clear]
  | clear, piece :: rest =>
    match piece.pan? with
    | some digits => clear :: clearStretches (lastFour digits) rest
    | none => clearStretches (clear ++ piece.text) rest

/-- The stretches of a whole text. -/
def readable (text : List Char) : List (List Char) := clearStretches [] (pieces none 0 text)

theorem infix_cons_of_not_mem {q rest : List Char} {x : Char} (hne : q ≠ []) (hx : x ∉ q) :
    q <:+: x :: rest ↔ q <:+: rest := by
  obtain ⟨c, tail, rfl⟩ := List.exists_cons_of_ne_nil hne
  have hcx : c ≠ x := fun heq => hx (heq ▸ List.mem_cons_self)
  simp [List.infix_cons_iff, List.cons_prefix_cons, hcx]

theorem prefix_append_cons {q a b : List Char} {x : Char} (hx : x ∉ q) :
    q <+: a ++ x :: b ↔ q <+: a := by
  induction a generalizing q with
  | nil =>
    cases q with
    | nil => simp
    | cons c tail =>
      have hcx : c ≠ x := fun heq => hx (heq ▸ List.mem_cons_self)
      simp [List.cons_prefix_cons, hcx]
  | cons y a ih =>
    cases q with
    | nil => simp
    | cons c tail =>
      have htail : x ∉ tail := fun h => hx (List.mem_cons_of_mem c h)
      simp [List.cons_prefix_cons, ih htail]

/-- A text without `x` is on one side of an `x`. -/
theorem infix_append_cons {q a b : List Char} {x : Char} (hne : q ≠ []) (hx : x ∉ q) :
    q <:+: a ++ x :: b ↔ q <:+: a ∨ q <:+: b := by
  induction a with
  | nil => simp [infix_cons_of_not_mem hne hx, hne]
  | cons y a ih =>
    rw [List.cons_append, List.infix_cons_iff, ih, List.infix_cons_iff, ← List.cons_append,
      prefix_append_cons hx, or_assoc]

/-- What has no asterisk cannot reach across asterisks. -/
theorem infix_append_replicate {q a b : List Char} {x : Char} (hne : q ≠ []) (hx : x ∉ q) (n : Nat) :
    q <:+: a ++ (List.replicate (n + 1) x ++ b) ↔ q <:+: a ∨ q <:+: b := by
  rw [List.replicate_succ, List.cons_append, infix_append_cons hne hx]
  induction n with
  | zero => simp
  | succ n ih => simpa [List.replicate_succ, infix_cons_of_not_mem hne hx] using ih

/-- A card number has between 13 and 19 digits. -/
theorem length_of_isPan {digits : List Char} (h : isPan digits = true) :
    13 ≤ digits.length ∧ digits.length ≤ 19 := by
  simp only [isPan, Bool.and_eq_true, decide_eq_true_eq] at h
  exact h.1.1

theorem isPan_of_pan? {piece : Piece} {digits : List Char} (h : piece.pan? = some digits) :
    isPan digits = true := by
  cases piece with
  | char c => nomatch h
  | candidate text =>
    simp only [Piece.pan?, Option.ite_none_right_eq_some, Option.some.injEq] at h
    rw [← h.2]
    exact h.1

/-- What can be read of the masked text is what can be read of a stretch. -/
theorem infix_masked_iff {q : List Char} (hne : q ≠ []) (hstar : '*' ∉ q) (clear : List Char)
    (found : List Piece) :
    q <:+: clear ++ found.flatMap Piece.masked ↔
      ∃ stretch ∈ clearStretches clear found, q <:+: stretch := by
  induction found generalizing clear with
  | nil => simp [clearStretches]
  | cons piece rest ih =>
    rw [List.flatMap_cons, clearStretches, Piece.masked]
    split
    next digits hpan =>
      have hlength : digits.length - 4 = (digits.length - 5) + 1 := by
        have := length_of_isPan (isPan_of_pan? hpan)
        omega
      rw [hlength, List.append_assoc, infix_append_replicate hne hstar, ih]
      simp
    next => rw [← List.append_assoc, ih]

/-- A stretch is what is left as it is between two numbers that are masked, with what is kept of the
first. -/
theorem mem_clearStretches {clear stretch : List Char} {found : List Piece}
    (h : stretch ∈ clearStretches clear found) :
    ∃ before mid after kept, found = before ++ mid ++ after ∧ (∀ piece ∈ mid, piece.pan? = none) ∧
      stretch = kept ++ mid.flatMap Piece.text ∧ (before = [] ∧ kept = clear ∨
        ∃ earlier piece digits, before = earlier ++ [piece] ∧ piece.pan? = some digits ∧
          kept = lastFour digits) := by
  induction found generalizing clear with
  | nil =>
    obtain rfl : stretch = clear := List.mem_singleton.mp h
    exact ⟨[], [], [], stretch, rfl, by simp, by simp, .inl ⟨rfl, rfl⟩⟩
  | cons piece rest ih =>
    rw [clearStretches] at h
    split at h
    next digits hpan =>
      rcases List.mem_cons.mp h with rfl | h
      · exact ⟨[], [], piece :: rest, stretch, rfl, by simp, by simp, .inl ⟨rfl, rfl⟩⟩
      · obtain ⟨before, mid, after, kept, rfl, hmid, hstretch, hkept⟩ := ih h
        refine ⟨piece :: before, mid, after, kept, rfl, hmid, hstretch, .inr ?_⟩
        rcases hkept with ⟨rfl, rfl⟩ | ⟨earlier, other, digits', rfl, hpan', rfl⟩
        · exact ⟨[], piece, digits, rfl, hpan, rfl⟩
        · exact ⟨piece :: earlier, other, digits', rfl, hpan', rfl⟩
    next hnone =>
      obtain ⟨before, mid, after, kept, rfl, hmid, hstretch, hkept⟩ := ih h
      rcases hkept with ⟨rfl, rfl⟩ | ⟨earlier, other, digits', rfl, hpan', rfl⟩
      · refine ⟨[], piece :: mid, after, clear, rfl, ?_, ?_, .inl ⟨rfl, rfl⟩⟩
        · intro other hother
          rcases List.mem_cons.mp hother with rfl | hother
          · exact hnone
          · exact hmid other hother
        · rw [hstretch, List.flatMap_cons, List.append_assoc]
      · exact ⟨piece :: (earlier ++ [other]), mid, after, _, rfl, hmid, hstretch,
          .inr ⟨piece :: earlier, other, digits', rfl, hpan', rfl⟩⟩

/-- A piece that overlaps the text of some pieces in a row is one of them. -/
theorem mem_of_overlap {before mid after earlier later : List Piece} {piece : Piece}
    (h : before ++ mid ++ after = earlier ++ piece :: later)
    (hbegin : (earlier.flatMap Piece.text).length <
      (before.flatMap Piece.text).length + (mid.flatMap Piece.text).length)
    (hend : (before.flatMap Piece.text).length <
      (earlier.flatMap Piece.text).length + piece.text.length) : piece ∈ mid := by
  rw [List.append_assoc] at h
  have hmid : ∀ t, earlier = before ++ t → mid ++ after = t ++ piece :: later → piece ∈ mid := by
    intro t ht hrest
    rcases List.append_eq_append_iff.mp hrest with ⟨more, rfl, -⟩ | ⟨more, rfl, hmore⟩
    · rw [ht, List.flatMap_append, List.flatMap_append, List.length_append,
        List.length_append] at hbegin
      omega
    · cases more with
      | nil =>
        rw [ht, List.append_nil, List.flatMap_append, List.length_append] at hbegin
        omega
      | cons first more =>
        obtain ⟨rfl, -⟩ := List.cons.inj hmore
        exact List.mem_append_right t List.mem_cons_self
  rcases List.append_eq_append_iff.mp h with ⟨t, ht, hrest⟩ | ⟨t, ht, hrest⟩
  · exact hmid t ht hrest
  · cases t with
    | nil =>
      rw [List.append_nil] at ht
      exact hmid [] (by rw [ht, List.append_nil]) hrest.symm
    | cons first t =>
      obtain ⟨rfl, -⟩ := List.cons.inj hrest
      rw [ht, List.flatMap_append, List.flatMap_cons, List.length_append, List.length_append] at hend
      omega

/-- The last digits of a run, with what stands between them. -/
theorem DigitRun.suffix_digits {c t : List Char} (h : DigitRun c) (ht : t <:+ digitsOf c)
    (hne : t ≠ []) : ∃ c₁ c₂, c = c₁ ++ c₂ ∧ DigitRun c₂ ∧ digitsOf c₂ = t := by
  have hcons : ∀ d rest, DigitRun (d :: rest) → isDecimal d = true → t <:+ digitsOf (d :: rest) →
      t = digitsOf (d :: rest) ∨ t <:+ digitsOf rest := by
    intro d rest _ hd hsuffix
    rw [digitsOf_cons hd] at hsuffix ⊢
    exact List.suffix_cons_iff.mp hsuffix
  induction h with
  | @last d hd =>
    rcases hcons d [] (.last hd) hd ht with heq | hnil
    · exact ⟨[], [d], rfl, .last hd, heq.symm⟩
    · exact absurd (List.suffix_nil.mp hnil) hne
  | @digit d rest hd hrest ih =>
    rcases hcons d rest (.digit hd hrest) hd ht with heq | hsuffix
    · exact ⟨[], d :: rest, rfl, .digit hd hrest, heq.symm⟩
    · obtain ⟨c₁, c₂, rfl, hrun, hdigits⟩ := ih hsuffix
      exact ⟨d :: c₁, c₂, rfl, hrun, hdigits⟩
  | @separated d s rest hd hs hrest ih =>
    rcases hcons d (s :: rest) (.separated hd hs hrest) hd ht with heq | hsuffix
    · exact ⟨[], d :: s :: rest, rfl, .separated hd hs hrest, heq.symm⟩
    · rw [digitsOf_separator hs] at hsuffix
      obtain ⟨c₁, c₂, rfl, hrun, hdigits⟩ := ih hsuffix
      exact ⟨d :: s :: c₁, c₂, rfl, hrun, hdigits⟩

/-- What goes on a run of digits goes on any run with these digits. -/
theorem DigitRun.append_digits {c m : List Char} (h : DigitRun c) (hm : DigitRun (digitsOf c ++ m)) :
    DigitRun (c ++ m) := by
  have htail : ∀ rest, DigitRun rest → ∀ d, DigitRun (d :: (digitsOf rest ++ m)) →
      DigitRun (digitsOf rest ++ m) := by
    intro rest hrest d hrun
    obtain ⟨e, more, rfl, he⟩ := hrest.head_decimal
    rw [digitsOf_cons he] at hrun ⊢
    cases hrun with
    | digit _ hrest => exact hrest
    | separated _ hs _ => simp [not_separator_decimal he] at hs
  induction h with
  | @last d hd =>
    rw [digitsOf_cons hd] at hm
    exact hm
  | @digit d rest hd hrest ih =>
    rw [digitsOf_cons hd] at hm
    exact .digit hd (ih (htail rest hrest d hm))
  | @separated d s rest hd hs hrest ih =>
    rw [digitsOf_cons hd, digitsOf_separator hs] at hm
    exact .separated hd hs (ih (htail rest hrest d hm))

theorem length_lastFour (digits : List Char) : (lastFour digits).length ≤ 4 := by
  unfold lastFour
  rw [List.length_drop]
  omega

/-- No number that is masked covers the run `w` behind `u`. -/
def Uncovered (text u w : List Char) : Prop :=
  ∀ before c after, pieces none 0 text = before ++ .candidate c :: after →
    (before.flatMap Piece.text).length ≤ u.length →
      u.length + w.length ≤ (before.flatMap Piece.text).length + c.length →
        isPan (digitsOf c) = false

/-- A run that ends among pieces that are left as they are is not covered. -/
theorem uncovered_of_mid {text u w : List Char} {before mid after : List Piece}
    (hpieces : pieces none 0 text = before ++ mid ++ after) (hmid : ∀ piece ∈ mid, piece.pan? = none)
    (hw : 0 < w.length) (hafter : (before.flatMap Piece.text).length < u.length + w.length)
    (hwithin : u.length + w.length ≤
      (before.flatMap Piece.text).length + (mid.flatMap Piece.text).length) :
    Uncovered text u w := by
  intro earlier c later hsplit hbegin hend
  have hmem : Piece.candidate c ∈ mid :=
    mem_of_overlap (hpieces.symm.trans hsplit) (by omega) (show _ < _ + c.length by omega)
  have hnone := hmid _ hmem
  by_contra hpan
  rw [Bool.not_eq_false] at hpan
  rw [Piece.pan?, if_pos hpan] at hnone
  cases hnone

/-- **A run that can be read is not covered by a number that is masked**, also where it begins with the
last four digits of one. -/
theorem run_in_stretch {text q stretch : List Char} (hq : DigitRun q) (hlength : 4 < q.length)
    (hstretch : stretch ∈ readable text) (hin : q <:+: stretch) :
    ∃ u w v, u ++ w ++ v = text ∧ DigitRun w ∧ digitsOf w = digitsOf q ∧ Uncovered text u w := by
  obtain ⟨before, mid, after, kept, hpieces, hmid, rfl, hkept⟩ := mem_clearStretches hstretch
  have htext : before.flatMap Piece.text ++ mid.flatMap Piece.text ++ after.flatMap Piece.text =
      text := by
    rw [← List.flatMap_append, ← List.flatMap_append, ← hpieces, pieces_text, List.drop_zero]
  have hinside : ∀ t y, mid.flatMap Piece.text = t ++ (q ++ y) → ∃ u w v, u ++ w ++ v = text ∧
      DigitRun w ∧ digitsOf w = digitsOf q ∧ Uncovered text u w := by
    intro t y hmidText
    refine ⟨before.flatMap Piece.text ++ t, q, y ++ after.flatMap Piece.text, ?_, hq, rfl,
      uncovered_of_mid hpieces hmid ?_ ?_ ?_⟩
    · rw [← htext, hmidText]
      simp
    · omega
    · rw [List.length_append]
      omega
    · rw [hmidText]
      simp only [List.length_append]
      omega
  have hfew : kept.length ≤ 4 := by
    rcases hkept with ⟨-, rfl⟩ | ⟨earlier, piece, digits, -, -, rfl⟩
    · exact Nat.zero_le _
    · exact length_lastFour digits
  obtain ⟨x, y, hsplit⟩ := hin
  rw [List.append_assoc] at hsplit
  rcases List.append_eq_append_iff.mp hsplit with ⟨t, hkeptText, hrest⟩ | ⟨t, -, hmidText⟩
  swap
  · exact hinside t y hmidText
  have hlengths := congrArg List.length hkeptText
  rw [List.length_append] at hlengths
  rcases List.append_eq_append_iff.mp hrest with ⟨m, htq, -⟩ | ⟨m, hqt, hmidText⟩
  · -- Only four digits are kept of a number.
    rw [htq, List.length_append] at hlengths
    omega
  by_cases hnil : t = []
  · rw [hnil] at hrest
    exact hinside [] y hrest.symm
  rcases hkept with ⟨-, rfl⟩ | ⟨earlier, piece, digits, hbefore, hpan, rfl⟩
  · exact absurd (List.append_eq_nil_iff.mp hkeptText.symm).2 hnil
  cases piece with
  | char c => nomatch hpan
  | candidate c₀ =>
    simp only [Piece.pan?, Option.ite_none_right_eq_some, Option.some.injEq] at hpan
    obtain ⟨-, rfl⟩ := hpan
    have hrun : DigitRun c₀ := by
      have hsplit := hpieces
      rw [hbefore, List.append_assoc, List.append_assoc] at hsplit
      obtain ⟨_, _, hcandidate⟩ := pieces_candidate_in hsplit
      exact hcandidate.run
    have hsuffix : t <:+ digitsOf c₀ :=
      (show t <:+ lastFour (digitsOf c₀) from hkeptText ▸ List.suffix_append x t).trans
        (List.drop_suffix _ _)
    -- In the text the four digits stand in the candidate, with what is between them.
    obtain ⟨c₁, c₂, rfl, hrun₂, hdigits⟩ := hrun.suffix_digits hsuffix hnil
    have hbeforeText : before.flatMap Piece.text =
        earlier.flatMap Piece.text ++ (c₁ ++ c₂) := by
      rw [hbefore, List.flatMap_append]
      simp [Piece.text]
    rw [hqt, List.length_append] at hlength
    refine ⟨earlier.flatMap Piece.text ++ c₁, c₂ ++ m, y ++ after.flatMap Piece.text, ?_,
      hrun₂.append_digits (by rwa [hdigits, ← hqt]), ?_, uncovered_of_mid hpieces hmid ?_ ?_ ?_⟩
    · rw [← htext, hbeforeText, hmidText]
      simp
    · rw [hqt, ← hdigits, digitsOf_append, digitsOf_append]
      congr 1
      simp [digitsOf, List.filter_filter]
    · rw [List.length_append]
      omega
    · rw [hbeforeText]
      simp only [List.length_append]
      omega
    · rw [hbeforeText, hmidText]
      simp only [List.length_append]
      omega

/-! ## The law -/

/-- A card number as a text has it: 13 to 19 digits, perhaps in groups, that pass the checks. -/
structure CardNumber (p : List Char) : Prop where
  run : DigitRun p
  pan : isPan (digitsOf p) = true

/-- Neither the number nor its digits can be read. -/
def Hidden (p out : List Char) : Prop := ¬ p <:+: out ∧ ¬ digitsOf p <:+: out

instance (p out : List Char) : Decidable (Hidden p out) := inferInstanceAs (Decidable (_ ∧ _))

theorem CardNumber.star_not_mem {p : List Char} (h : CardNumber p) : '*' ∉ p := by
  intro hmem
  have := h.run.decimal_or_separator '*' hmem
  simp [not_decimal_star, isSeparator] at this

theorem CardNumber.digits_ne_nil {p : List Char} (h : CardNumber p) : digitsOf p ≠ [] := by
  intro hnil
  have := (length_of_isPan h.pan).1
  simp [hnil] at this

theorem CardNumber.ne_nil {p : List Char} (h : CardNumber p) : p ≠ [] := by
  intro hnil
  apply h.digits_ne_nil
  simp [hnil, digitsOf]

/-- A run of digits is one as well without what stands between them. -/
theorem DigitRun.digits {c : List Char} (h : DigitRun c) : DigitRun (digitsOf c) := by
  induction h with
  | @last d hd =>
    rw [digitsOf_cons hd]
    exact .last hd
  | @digit d rest hd _ ih =>
    rw [digitsOf_cons hd]
    exact .digit hd ih
  | @separated d s rest hd hs _ ih =>
    rw [digitsOf_cons hd, digitsOf_separator hs]
    exact .digit hd ih

theorem digitsOf_digitsOf (c : List Char) : digitsOf (digitsOf c) = digitsOf c := by
  simp [digitsOf, List.filter_filter]

/-- Every run with the digits of `p` lies in a candidate that is a card number and stands alone. -/
def Shielded (p text : List Char) : Prop :=
  ∀ u w v, u ++ w ++ v = text → DigitRun w → digitsOf w = digitsOf p →
    ∃ a c b, a ++ c ++ b = text ∧ StandsAlone a c b ∧ isPan (digitsOf c) = true ∧
      a.length ≤ u.length ∧ u.length + w.length ≤ a.length + c.length

/-- A candidate that stands alone and is no card number contains `p`, or its digits. -/
def Exposed (p text : List Char) : Prop :=
  ∃ a c b, a ++ c ++ b = text ∧ StandsAlone a c b ∧ isPan (digitsOf c) = false ∧
    (p <:+: c ∨ digitsOf p <:+: c)

/-- The ways to part a text in three. -/
def splits (text : List Char) : List (List Char × List Char × List Char) :=
  (List.range (text.length + 1)).flatMap fun i => (List.range (text.length + 1)).map fun j =>
    (text.take i, (text.drop i).take j, text.drop (i + j))

/-- The ways to part a text are all of them. -/
theorem mem_splits {text u w v : List Char} : (u, w, v) ∈ splits text ↔ u ++ w ++ v = text := by
  simp only [splits, List.mem_flatMap, List.mem_range, List.mem_map, Prod.mk.injEq]
  constructor
  · intro h
    obtain ⟨i, -, j, -, rfl, rfl, rfl⟩ := h
    rw [List.append_assoc, ← List.drop_drop, List.take_append_drop, List.take_append_drop]
  · intro h
    have hlength := congrArg List.length h
    simp only [List.length_append] at hlength
    refine ⟨u.length, by omega, w.length, by omega, ?_, ?_, ?_⟩
    all_goals simp [← h]

instance (a c b : List Char) : Decidable (StandsAlone a c b) :=
  decidable_of_iff (CandidateIn a c b ∧ ∀ s ∈ splits (a ++ c ++ b), CandidateIn s.1 s.2.1 s.2.2 →
      s.1.length < a.length + c.length → a.length < s.1.length + s.2.1.length →
        a.length ≤ s.1.length ∧ s.1.length + s.2.1.length ≤ a.length + c.length)
    ⟨fun h => ⟨h.1, fun _ _ _ heq => h.2 _ (mem_splits.mpr heq)⟩,
      fun h => ⟨h.toCandidateIn, fun _ hs => h.unreached _ _ _ (mem_splits.mp hs)⟩⟩

instance (p text : List Char) : Decidable (Shielded p text) :=
  decidable_of_iff (∀ s ∈ splits text, DigitRun s.2.1 → digitsOf s.2.1 = digitsOf p →
      ∃ t ∈ splits text, StandsAlone t.1 t.2.1 t.2.2 ∧ isPan (digitsOf t.2.1) = true ∧
        t.1.length ≤ s.1.length ∧ s.1.length + s.2.1.length ≤ t.1.length + t.2.1.length)
    ⟨fun h _ _ _ heq hw hdigits =>
        let ⟨_, ht, hfacts⟩ := h _ (mem_splits.mpr heq) hw hdigits
        ⟨_, _, _, mem_splits.mp ht, hfacts⟩,
      fun h _ hs hw hdigits =>
        let ⟨_, _, _, heq, hfacts⟩ := h _ _ _ (mem_splits.mp hs) hw hdigits
        ⟨_, mem_splits.mpr heq, hfacts⟩⟩

instance (p text : List Char) : Decidable (Exposed p text) :=
  decidable_of_iff (∃ s ∈ splits text, StandsAlone s.1 s.2.1 s.2.2 ∧
      isPan (digitsOf s.2.1) = false ∧ (p <:+: s.2.1 ∨ digitsOf p <:+: s.2.1))
    ⟨fun ⟨_, hs, hfacts⟩ => ⟨_, _, _, mem_splits.mp hs, hfacts⟩,
      fun ⟨_, _, _, heq, hfacts⟩ => ⟨_, mem_splits.mpr heq, hfacts⟩⟩

/-- What can be read of a card number is a run with its digits that nothing covers. -/
theorem CardNumber.hidden_of_shielded {p text : List Char} (hp : CardNumber p)
    (h : Shielded p text) : Hidden p (maskPans text).1 := by
  have hnot : ∀ q : List Char, DigitRun q → digitsOf q = digitsOf p → '*' ∉ q → q ≠ [] →
      ¬ q <:+: (maskPans text).1 := by
    intro q hq hdigits hstar hne hin
    obtain ⟨stretch, hstretch, hin⟩ := (infix_masked_iff hne hstar [] (pieces none 0 text)).mp hin
    have hlong : 4 < q.length := by
      have hmany := (length_of_isPan hp.pan).1
      rw [← hdigits] at hmany
      have hall : (digitsOf q).length ≤ q.length := List.length_filter_le isDecimal q
      omega
    obtain ⟨u, w, v, huwv, hw, hwdigits, huncovered⟩ := run_in_stretch hq hlong hstretch hin
    obtain ⟨a, c, b, rfl, halone, hpan, hbegin, hend⟩ :=
      h u w v huwv hw (hwdigits.trans hdigits)
    obtain ⟨before, after, htaken, hbefore⟩ := halone.taken
    have hclear := huncovered before c after htaken (by rw [hbefore]; exact hbegin)
      (by rw [hbefore]; exact hend)
    exact Bool.false_ne_true (hclear.symm.trans hpan)
  constructor
  · exact hnot p hp.run rfl hp.star_not_mem hp.ne_nil
  · exact hnot (digitsOf p) hp.run.digits (digitsOf_digitsOf p)
      (fun h => hp.star_not_mem (List.mem_of_mem_filter h)) hp.digits_ne_nil

/-- What a candidate contains that stands alone and is no card number can be read. -/
theorem not_hidden_of_exposed {p text : List Char} (h : Exposed p text) :
    ¬ Hidden p (maskPans text).1 := by
  obtain ⟨a, c, b, rfl, halone, hpan, hcontains⟩ := h
  obtain ⟨before, after, htaken, -⟩ := halone.taken
  have hclear : c <:+: (maskPans (a ++ c ++ b)).1 := by
    refine ⟨before.flatMap Piece.masked, after.flatMap Piece.masked, ?_⟩
    rw [maskPans, htaken, List.flatMap_append, List.flatMap_cons, Piece.masked, Piece.pan?, hpan]
    simp [Piece.text]
  intro hhidden
  rcases hcontains with hin | hin
  · exact hhidden.1 (hin.trans hclear)
  · exact hhidden.2 (hin.trans hclear)

/-- Four groups of four digits. -/
theorem fourGroups : CardNumber "4111 1111 1111 1111".toList where
  run := by decide +kernel
  pan := by decide +kernel

end Recon.Pan
