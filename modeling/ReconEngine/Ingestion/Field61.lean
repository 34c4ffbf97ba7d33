import ReconEngine.Ingestion.Mt940

/-!
# The grammar of the statement line

`_FIELD_61_PATTERN` is a regular expression with optional parts, and a search for a match could in
principle split a line in more than one way. `Field61` is a split of a line into the parts of the
pattern, and `Field61.Fits` says that the pattern allows it.

**The law** (`parseField61_content`): the parts are read back from the line, whatever they are. No part
can begin with a character that the part before it could have taken, so there is one split at most
(`Field61.text_injective`), and taking what can be taken finds it (`parseField61_eq_some_iff`).

**What it does not establish.** That the parts mean anything: an amount of the pattern may be no
number that a currency can hold, and a day may not exist. What becomes of such a row is
`Ingestion.BadRows`.
-/

set_option autoImplicit false

namespace Recon

namespace Mt940

/-! ## Splits of a line -/

/-- A split of a statement line into the groups of the pattern. -/
structure Field61 where
  valueDate : List Char
  entryDate : Option (List Char)
  mark : String
  fundsCode : Option Char
  amount : List Char
  typeCode : List Char
  reference : List Char
deriving DecidableEq, Repr

namespace Field61

def marks : List String := ["RC", "RD", "C", "D"]

/-- A letter and three letters or digits. -/
def isTypeCode : List Char → Bool
  | [a, b, c, d] => a.isAlpha && b.isAlphanum && c.isAlphanum && d.isAlphanum
  | _ => false

/-- Each group of the pattern accepts its part. -/
structure Fits (parts : Field61) : Prop where
  valueDate : parts.valueDate.length = 6 ∧ parts.valueDate.all isDecimal
  entryDate : ∀ digits ∈ parts.entryDate, digits.length = 4 ∧ digits.all isDecimal
  mark : parts.mark ∈ marks
  fundsCode : ∀ c ∈ parts.fundsCode, c.isAlpha
  amount : parts.amount ≠ [] ∧ parts.amount.all isAmountChar
  typeCode : isTypeCode parts.typeCode
  reference : '\n' ∉ parts.reference

/-- The line: the parts one after the other. -/
def text (parts : Field61) : List Char :=
  parts.valueDate ++ (parts.entryDate.getD [] ++ (parts.mark.toList ++
    (parts.fundsCode.toList ++ (parts.amount ++ (parts.typeCode ++ parts.reference)))))

/-- The content of the field, with the details of a second line. -/
def content (parts : Field61) (details : Option (List Char)) : List Char :=
  parts.text ++ (details.map ('\n' :: ·)).getD []

/-- Blank details count as none. -/
def detailsOf (details : Option (List Char)) : Option (List Char) :=
  (details.map stripChars).filter (· ≠ [])

/-- What `parse_field_61` says of the parts. -/
def parsed (parts : Field61) (details : Option (List Char)) : ParsedField61 where
  valueDateRaw := parts.valueDate
  entryDateRaw := parts.entryDate
  mark := parts.mark
  isReversal := parts.mark = "RC" || parts.mark = "RD"
  fundsCode := parts.fundsCode
  amountRaw := parts.amount
  transactionTypeCode := parts.typeCode
  referenceRaw := stripChars parts.reference
  supplementaryDetails := detailsOf details

end Field61

/-! ## The characters at the borders -/

/-- Below the first letters there is one block of digits. -/
theorem toNat_of_isDecimal {c : Char} (h : isDecimal c = true) :
    0x30 ≤ c.toNat ∧ c.toNat < 0x3a ∨ 0x660 ≤ c.toNat := by
  obtain ⟨value, hvalue⟩ := Option.isSome_iff_exists.mp h
  obtain ⟨first, hfirst, -⟩ := Option.map_eq_some_iff.mp hvalue
  have hrange : first ≤ c.toNat ∧ c.toNat < first + 10 := by simpa using List.find?_some hfirst
  have hzeros : ∀ z ∈ decimalZeros, z = 0x30 ∨ 0x660 ≤ z := by decide
  rcases hzeros first (List.mem_of_find?_eq_some hfirst) with rfl | hlarge <;> omega

theorem toNat_of_isAlpha {c : Char} (h : c.isAlpha = true) : 0x41 ≤ c.toNat ∧ c.toNat ≤ 0x7a := by
  have hbounds : 'A'.val.toNat = 0x41 ∧ 'Z'.val.toNat = 0x5a ∧ 'a'.val.toNat = 0x61 ∧
      'z'.val.toNat = 0x7a := ⟨rfl, rfl, rfl, rfl⟩
  have hupper : c.isUpper = true → c.val ≥ 'A'.val ∧ c.val ≤ 'Z'.val := of_decide_eq_true
  have hlower : c.isLower = true → 'a'.val ≤ c.val ∧ c.val ≤ 'z'.val := by
    intro hc
    obtain ⟨hlow, hhigh⟩ := Bool.and_eq_true_iff.mp hc
    exact ⟨of_decide_eq_true hlow, of_decide_eq_true hhigh⟩
  have hcases : c.isUpper = true ∨ c.isLower = true := Bool.or_eq_true_iff.mp h
  simp only [ge_iff_le, UInt32.le_iff_toNat_le] at hupper hlower
  have hval : c.toNat = c.val.toNat := rfl
  rcases hcases with hc | hc
  · have := hupper hc
    omega
  · have := hlower hc
    omega

/-- An amount ends where a letter stands. -/
theorem not_isAmountChar_of_isAlpha {c : Char} (h : c.isAlpha = true) : isAmountChar c = false := by
  have hletter := toNat_of_isAlpha h
  have hdecimal : isDecimal c = false := by
    by_contra hdigit
    rcases toNat_of_isDecimal (by simpa using hdigit) with hlow | hhigh <;> omega
  have hdot : c ≠ '.' := fun heq => absurd (heq ▸ h) (by decide)
  have hcomma : c ≠ ',' := fun heq => absurd (heq ▸ h) (by decide)
  simp [isAmountChar, hdecimal, hdot, hcomma]

/-! ## Reading the parts -/

/-- `(\d{4})?`. -/
def takeEntryDate (text : List Char) : Option (List Char) × List Char :=
  match takeDecimals 4 text with
  | some (digits, rest) => (some digits, rest)
  | none => (none, text)

/-- `[A-Za-z]?`. -/
def takeFundsCode : List Char → Option Char × List Char
  | c :: rest => if c.isAlpha then (some c, rest) else (none, c :: rest)
  | [] => (none, [])

/-- `[\d.,]+`. -/
def takeAmount (text : List Char) : Option (List Char × List Char) :=
  if text.takeWhile isAmountChar = [] then none
  else some (text.takeWhile isAmountChar, text.dropWhile isAmountChar)

/-- `[A-Za-z][A-Za-z0-9]{3}`. -/
def takeTypeCode : List Char → Option (List Char × List Char)
  | a :: b :: c :: d :: rest =>
    if a.isAlpha && b.isAlphanum && c.isAlphanum && d.isAlphanum then some ([a, b, c, d], rest)
    else none
  | _ => none

/-- The parts of a line, each taken where the one before it ends. -/
def takeParts (line : List Char) : Option Field61 :=
  (takeDecimals 6 line).bind fun date =>
  (takeMark (takeEntryDate date.2).2).bind fun mark =>
  (takeAmount (takeFundsCode mark.2).2).bind fun amount =>
  (takeTypeCode amount.2).map fun code =>
    ⟨date.1, (takeEntryDate date.2).1, mark.1, (takeFundsCode mark.2).1, amount.1, code.1, code.2⟩

/-- `parse_field_61` takes the parts of the first line. -/
theorem parseField61_eq (content : List Char) :
    parseField61 content = (takeParts (content.takeWhile (· != '\n'))).map fun parts =>
      parts.parsed (some ((content.dropWhile (· != '\n')).drop 1)) := by
  have hdetails : ∀ text : List Char, Field61.detailsOf (some text) =
      if stripChars text = [] then none else some (stripChars text) := by
    intro text
    unfold Field61.detailsOf
    rw [Option.map_some, Option.filter_some]
    split <;> simp_all
  unfold parseField61 takeParts takeEntryDate
  dsimp only
  cases takeDecimals 6 (content.takeWhile (· != '\n')) with
  | none => rfl
  | some date =>
    rcases date with ⟨valueDate, rest⟩
    simp only [Option.bind_eq_bind, Option.bind_some]
    cases takeDecimals 4 rest <;> simp only
    all_goals
      generalize takeMark _ = marked
      cases marked with
      | none => rfl
      | some mark =>
        rcases mark with ⟨mark, rest⟩
        simp only [Option.bind_some]
        cases rest with
        | nil => rfl
        | cons c rest =>
          unfold takeFundsCode takeAmount
          by_cases hc : c.isAlpha = true <;> simp only [hc, if_true, Bool.false_eq_true, if_false]
          all_goals
            split
            · rfl
            · simp only [Option.bind_some]
              generalize List.dropWhile isAmountChar _ = tail
              rcases tail with _ | ⟨a, _ | ⟨b, _ | ⟨d, _ | ⟨e, reference⟩⟩⟩⟩ <;> try rfl
              simp only [takeTypeCode]
              split
              · simp [Field61.parsed, hdetails]
              · rfl

theorem takeDecimals_append {count : Nat} {digits : List Char} (hlength : digits.length = count)
    (hdigits : digits.all isDecimal = true) (rest : List Char) :
    takeDecimals count (digits ++ rest) = some (digits, rest) := by
  subst hlength
  simp [takeDecimals, hdigits]

/-- No digits are taken where something else stands. -/
theorem takeDecimals_of_not_decimal {count : Nat} (hcount : 0 < count) {c : Char}
    (hc : isDecimal c = false) (rest : List Char) : takeDecimals count (c :: rest) = none := by
  obtain ⟨n, rfl⟩ := Nat.exists_eq_succ_of_ne_zero (Nat.ne_of_gt hcount)
  simp [takeDecimals, hc]

theorem takeDecimals_eq_some {count : Nat} {text digits rest : List Char}
    (h : takeDecimals count text = some (digits, rest)) :
    text = digits ++ rest ∧ digits.length = count ∧ digits.all isDecimal = true := by
  unfold takeDecimals at h
  split at h
  · rename_i hdigits
    cases h
    exact ⟨(List.take_append_drop count text).symm, hdigits⟩
  · cases h

/-- A mark is taken from the front, the longer one first. -/
theorem takeMark_append {mark : String} (hmark : mark ∈ Field61.marks) (rest : List Char) :
    takeMark (mark.toList ++ rest) = some (mark, rest) := by
  simp only [Field61.marks, List.mem_cons, List.not_mem_nil, or_false] at hmark
  rcases hmark with rfl | rfl | rfl | rfl <;> rfl

theorem takeMark_eq_some {text rest : List Char} {mark : String}
    (h : takeMark text = some (mark, rest)) :
    text = mark.toList ++ rest ∧ mark ∈ Field61.marks := by
  unfold takeMark at h
  split at h <;> cases h <;> exact ⟨rfl, by decide⟩

/-- A mark begins with a letter. -/
theorem mark_head {mark : String} (hmark : mark ∈ Field61.marks) :
    ∃ c rest, mark.toList = c :: rest ∧ isDecimal c = false := by
  simp only [Field61.marks, List.mem_cons, List.not_mem_nil, or_false] at hmark
  rcases hmark with rfl | rfl | rfl | rfl <;> exact ⟨_, _, rfl, by decide⟩

namespace Field61

/-- No part holds a line break. -/
theorem Fits.newline_not_mem {parts : Field61} (h : parts.Fits) : '\n' ∉ parts.text := by
  have hdigits : ∀ digits : List Char, digits.all isDecimal = true → '\n' ∉ digits :=
    fun digits hall hmem => absurd (List.all_eq_true.mp hall _ hmem) (by decide)
  have hentry : '\n' ∉ parts.entryDate.getD [] := by
    cases hdate : parts.entryDate with
    | none => exact List.not_mem_nil
    | some digits => exact hdigits digits (h.entryDate digits hdate).2
  have hmark : '\n' ∉ parts.mark.toList := by
    have hmarks : ∀ mark ∈ marks, '\n' ∉ mark.toList := by decide
    exact hmarks parts.mark h.mark
  have hfunds : '\n' ∉ parts.fundsCode.toList := by
    cases hcode : parts.fundsCode with
    | none => exact List.not_mem_nil
    | some c =>
      intro hmem
      rw [Option.toList_some, List.mem_singleton] at hmem
      exact absurd (hmem ▸ h.fundsCode c hcode) (by decide)
  have hamount : '\n' ∉ parts.amount :=
    fun hmem => absurd (List.all_eq_true.mp h.amount.2 _ hmem) (by decide)
  have htype : '\n' ∉ parts.typeCode := by
    have hcode := h.typeCode
    unfold isTypeCode at hcode
    split at hcode
    · rename_i a b c d heq
      intro hmem
      rw [heq] at hmem
      simp only [List.mem_cons, List.not_mem_nil, or_false] at hmem
      rcases hmem with rfl | rfl | rfl | rfl <;> simp at hcode
    · cases hcode
  simp only [text, List.mem_append, not_or]
  exact ⟨hdigits _ h.valueDate.2, hentry, hmark, hfunds, hamount, htype, h.reference⟩

end Field61

/-- The entry date is read where there is one. -/
theorem takeEntryDate_append {parts : Field61} (h : parts.Fits) (rest : List Char) :
    takeEntryDate (parts.entryDate.getD [] ++ (parts.mark.toList ++ rest)) =
      (parts.entryDate, parts.mark.toList ++ rest) := by
  unfold takeEntryDate
  cases hdate : parts.entryDate with
  | none =>
    obtain ⟨c, after, hmark, hc⟩ := mark_head h.mark
    rw [Option.getD_none, List.nil_append, hmark, List.cons_append,
      takeDecimals_of_not_decimal (by decide) hc]
  | some digits =>
    obtain ⟨hlength, hdigits⟩ := h.entryDate digits hdate
    rw [Option.getD_some, takeDecimals_append hlength hdigits]

/-- The funds code is read where there is one: an amount does not begin like a code. -/
theorem takeFundsCode_append {parts : Field61} (h : parts.Fits) (rest : List Char) :
    takeFundsCode (parts.fundsCode.toList ++ (parts.amount ++ rest)) =
      (parts.fundsCode, parts.amount ++ rest) := by
  cases hcode : parts.fundsCode with
  | none =>
    obtain ⟨c, after, hamount⟩ := List.exists_cons_of_ne_nil h.amount.1
    have hchar := List.all_eq_true.mp h.amount.2 c (hamount ▸ List.mem_cons_self)
    have hc : c.isAlpha = false := by
      by_contra hletter
      rw [not_isAmountChar_of_isAlpha (by simpa using hletter)] at hchar
      cases hchar
    simp [hamount, takeFundsCode, hc]
  | some c => simp [takeFundsCode, h.fundsCode c hcode]

/-- The amount is read up to the type code, and the type code after it. -/
theorem takeAmount_append {parts : Field61} (h : parts.Fits) :
    takeAmount (parts.amount ++ (parts.typeCode ++ parts.reference)) =
        some (parts.amount, parts.typeCode ++ parts.reference) ∧
      takeTypeCode (parts.typeCode ++ parts.reference) = some (parts.typeCode, parts.reference) := by
  have hall := List.all_eq_true.mp h.amount.2
  have hcode := h.typeCode
  unfold Field61.isTypeCode at hcode
  split at hcode
  · rename_i a b c d heq
    have hletter : isAmountChar a = false := by
      simp only [Bool.and_eq_true] at hcode
      exact not_isAmountChar_of_isAlpha hcode.1.1.1
    refine ⟨?_, by simp [heq, takeTypeCode, hcode]⟩
    unfold takeAmount
    rw [List.takeWhile_append_of_pos hall, List.dropWhile_append_of_pos hall]
    simp [heq, hletter, h.amount.1]
  · cases hcode

/-- The parts are read back from their text. -/
theorem takeParts_text {parts : Field61} (h : parts.Fits) : takeParts parts.text = some parts := by
  obtain ⟨hamount, hcode⟩ := takeAmount_append h
  unfold takeParts Field61.text
  simp only [takeDecimals_append h.valueDate.1 h.valueDate.2, Option.bind_some,
    takeEntryDate_append h, takeMark_append h.mark, takeFundsCode_append h, hamount, hcode,
    Option.map_some]

/-! ## Every match is the split -/

/-- The entry date is taken where there are four digits, and nothing otherwise. -/
theorem takeEntryDate_spec (text : List Char) :
    text = (takeEntryDate text).1.getD [] ++ (takeEntryDate text).2 ∧
      ∀ digits ∈ (takeEntryDate text).1, digits.length = 4 ∧ digits.all isDecimal = true := by
  unfold takeEntryDate
  split
  · rename_i digits rest htake
    obtain ⟨htext, hdigits⟩ := takeDecimals_eq_some htake
    refine ⟨htext, ?_⟩
    rintro _ ⟨rfl⟩
    exact hdigits
  · exact ⟨rfl, fun _ h => absurd h (Option.not_mem_none _)⟩

theorem takeFundsCode_spec (text : List Char) :
    text = (takeFundsCode text).1.toList ++ (takeFundsCode text).2 ∧
      ∀ c ∈ (takeFundsCode text).1, c.isAlpha = true := by
  unfold takeFundsCode
  split
  · rename_i c rest
    split
    · rename_i hc
      refine ⟨rfl, ?_⟩
      rintro _ ⟨rfl⟩
      exact hc
    · exact ⟨rfl, fun _ h => absurd h (Option.not_mem_none _)⟩
  · exact ⟨rfl, fun _ h => absurd h (Option.not_mem_none _)⟩

theorem takeAmount_eq_some {text amount rest : List Char}
    (h : takeAmount text = some (amount, rest)) :
    text = amount ++ rest ∧ amount ≠ [] ∧ amount.all isAmountChar = true := by
  unfold takeAmount at h
  split at h
  · cases h
  · rename_i hne
    cases h
    exact ⟨List.takeWhile_append_dropWhile.symm, hne,
      List.all_takeWhile⟩

theorem takeTypeCode_eq_some {text code rest : List Char}
    (h : takeTypeCode text = some (code, rest)) : text = code ++ rest ∧ Field61.isTypeCode code = true := by
  unfold takeTypeCode at h
  split at h
  · split at h
    · rename_i hcode
      cases h
      exact ⟨rfl, hcode⟩
    · cases h
  · cases h

/-- A split is found exactly when the pattern allows it. -/
theorem takeParts_eq_some_iff {line : List Char} (hline : '\n' ∉ line) {parts : Field61} :
    takeParts line = some parts ↔ parts.Fits ∧ parts.text = line := by
  constructor
  · intro h
    obtain ⟨⟨date, rest⟩, hdate, h⟩ := Option.bind_eq_some_iff.mp h
    obtain ⟨⟨mark, rest'⟩, hmark, h⟩ := Option.bind_eq_some_iff.mp h
    obtain ⟨⟨amount, rest''⟩, hamount, h⟩ := Option.bind_eq_some_iff.mp h
    obtain ⟨⟨code, reference⟩, hcode, rfl⟩ := Option.map_eq_some_iff.mp h
    obtain ⟨htext, hdate⟩ := takeDecimals_eq_some hdate
    obtain ⟨hafterDate, hentry⟩ := takeEntryDate_spec rest
    obtain ⟨hafterEntry, hmark⟩ := takeMark_eq_some hmark
    obtain ⟨hafterMark, hfunds⟩ := takeFundsCode_spec rest'
    obtain ⟨hafterFunds, hamount⟩ := takeAmount_eq_some hamount
    obtain ⟨hafterAmount, hcode⟩ := takeTypeCode_eq_some hcode
    have hwhole : Field61.text ⟨date, (takeEntryDate rest).1, mark, (takeFundsCode rest').1, amount,
        code, reference⟩ = line := by
      unfold Field61.text
      dsimp only
      rw [← hafterAmount, ← hafterFunds, ← hafterMark, ← hafterEntry, ← hafterDate, ← htext]
    refine ⟨⟨hdate, hentry, hmark, hfunds, hamount, hcode, fun hmem => hline ?_⟩, hwhole⟩
    rw [← hwhole]
    simp [Field61.text, hmem]
  · rintro ⟨hfits, rfl⟩
    exact takeParts_text hfits

/-- A line is split in one way at most. -/
theorem Field61.text_injective {p q : Field61} (hp : p.Fits) (hq : q.Fits)
    (h : p.text = q.text) : p = q :=
  Option.some.inj ((takeParts_text hp).symm.trans (h ▸ takeParts_text hq))

/-! ## The law -/

/-- The first line of a content, and what is read of its details. -/
theorem content_lines {parts : Field61} (h : parts.Fits) (details : Option (List Char)) :
    (parts.content details).takeWhile (· != '\n') = parts.text ∧
      ((parts.content details).dropWhile (· != '\n')).drop 1 = details.getD [] := by
  have hall : ∀ c ∈ parts.text, (c != '\n') = true :=
    fun c hc => bne_iff_ne.mpr fun heq => h.newline_not_mem (heq ▸ hc)
  unfold Field61.content
  rw [List.takeWhile_append_of_pos hall, List.dropWhile_append_of_pos hall]
  cases details <;> simp

/-- `parse_field_61` accepts a content exactly when the pattern has a match for its first line, and
then there is one match. -/
theorem parseField61_eq_some_iff (content : List Char) (result : ParsedField61) :
    parseField61 content = some result ↔ ∃ parts : Field61, parts.Fits ∧
      parts.text = content.takeWhile (· != '\n') ∧
      parts.parsed (some ((content.dropWhile (· != '\n')).drop 1)) = result := by
  have hline : '\n' ∉ content.takeWhile (· != '\n') :=
    fun hmem => absurd (List.all_eq_true.mp List.all_takeWhile _ hmem) (by decide)
  rw [parseField61_eq, Option.map_eq_some_iff]
  simp only [takeParts_eq_some_iff hline, and_assoc]

/-- **Unambiguous fields.** Whatever the parts of a statement line are, with or without an entry date,
a funds code and details on a second line, `parse_field_61` reads them back. -/
theorem parseField61_content (parts : Field61) (h : parts.Fits) (details : Option (List Char)) :
    parseField61 (parts.content details) = some (parts.parsed details) := by
  obtain ⟨hfirst, hdetails⟩ := content_lines h details
  rw [parseField61_eq, hfirst, hdetails, takeParts_text h, Option.map_some]
  cases details <;> rfl

/-- A credit with a funds code and without an entry date, whose reference has a blank before it. -/
def creditLine : Field61 where
  valueDate := "260301".toList
  entryDate := none
  mark := "C"
  fundsCode := some 'R'
  amount := "1.250,00".toList
  typeCode := "NTRF".toList
  reference := " PAY42//B7".toList

theorem creditLine_fits : creditLine.Fits where
  valueDate := by decide +kernel
  entryDate := nofun
  mark := by decide +kernel
  fundsCode := by
    intro c hc
    obtain rfl : 'R' = c := Option.some.inj hc
    rfl
  amount := by decide +kernel
  typeCode := by decide +kernel
  reference := by decide +kernel

theorem parseField61_content_creditLine :
    parseField61 "260301CR1.250,00NTRF PAY42//B7\nRENT".toList =
      some (creditLine.parsed (some "RENT".toList)) :=
  parseField61_content creditLine creditLine_fits (some "RENT".toList)

end Mt940

end Recon
