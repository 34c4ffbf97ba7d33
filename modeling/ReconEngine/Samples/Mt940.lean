import ReconEngine.Ingestion.Field61
import ReconEngine.Samples.Entries

/-!
# MT940 sample statements

`write_mt940` writes one line for each field: the header, the opening balance, a statement line and a
narrative for each entry, and the closing balance.

**The law** (`writeMt940_readsBack`): every line opens a field of its own, so the lexer gets back the
fields that were written, and each of them is read by the part of the parser that has its format. The
balances agree up to what was added to break them, as reversals have marks of their own.

**What it does not establish.** Texts with line breaks or that begin like a tag are not written so:
the condition on an entry (`Readable`) excludes them, and the law says nothing of what becomes of
them.
-/

set_option autoImplicit false

namespace Recon.Samples.Mt940

open Recon.Mt940 JsonText

/-! ## The writer -/

/-- `_balance_mark`. -/
def balanceMark (minor : Int) : String := if minor < 0 then "D" else "C"

/-- The mark of an entry. -/
def entryMark (e : Entry) : String :=
  if e.reversal then (if e.direction = .dr then "RD" else "RC")
  else (if e.direction = .dr then "D" else "C")

/-- A field with its tag, on a line. -/
def fieldLine (field : String × List Char) : List Char := ':' :: field.1.toList ++ ':' :: field.2

/-- A balance with the text of its amount. -/
def balanceField (tag : String) (minor : Int) (day : Date) (text : String) : String × List Char :=
  (tag, (balanceMark minor).toList ++ (compactDay day ++ ("INR".toList ++ text.toList)))

/-- The statement line of an entry with the text of its amount. -/
def statementLine (e : Entry) (text : String) : List Char :=
  compactDay e.day ++ (shortDay e.day ++ ((entryMark e).toList ++ (text.toList ++
    ("NTRF".toList ++ e.ref.toList))))

def narrative (e : Entry) : List Char :=
  (if e.narration = "" then "Payment" else e.narration).toList

/-- The two fields of an entry. -/
def writeEntry (decimalSeparator : String) (e : Entry) :
    Except ReconError (List (String × List Char)) := do
  let text ← decimalText e.amountMinor e.currency decimalSeparator
  return [("61", statementLine e text), ("86", narrative e)]

def headerFields (account statementNo : String) : List (String × List Char) :=
  [("20", "STMT".toList ++ (replaceText statementNo "/" "").toList), ("25", account.toList),
    ("28C", statementNo.toList)]

/-- `"\n".join(lines) + "\n"`. -/
def joinLines (lines : List (List Char)) : String := String.ofList (['\n'].intercalate lines ++ ['\n'])

def closingMinor (entries : List Entry) (openingMinor unbalancedByMinor : Int) : Int :=
  openingMinor + (entries.map signed).sum + unbalancedByMinor

/-- `write_mt940`. -/
def writeMt940 (entries : List Entry) (decimalSeparator account statementNo : String)
    (openingMinor : Int := mt940DefaultOpeningMinor) (unbalancedByMinor : Int := 0) :
    Except ReconError String := do
  let closing := closingMinor entries openingMinor unbalancedByMinor
  let openingText ← decimalText |openingMinor| "INR" decimalSeparator
  let body ← entries.mapM (writeEntry decimalSeparator)
  let closingText ← decimalText |closing| "INR" decimalSeparator
  return joinLines ((headerFields account statementNo ++
    [balanceField "60F" openingMinor (firstDay entries) openingText] ++ body.flatten ++
    [balanceField "62F" closing (lastDay entries) closingText]).map fieldLine)

/-! ## Lines are fields -/

/-- A text of one line. -/
def OneLine (text : List Char) : Prop := ∀ c ∈ text, isLineEnd c = false

/-- A text without line ends is one line. -/
theorem oneLine_of_all {text : List Char} (h : text.all (fun c => !isLineEnd c) = true) :
    OneLine text := by
  intro c hc
  simpa using List.all_eq_true.mp h c hc

theorem splitLinesFrom_line {line : List Char} (h : OneLine line) (before rest : List Char) :
    splitLinesFrom before (line ++ '\n' :: rest) = (before ++ line) :: splitLinesFrom [] rest := by
  induction line generalizing before with
  | nil =>
    rw [List.nil_append, List.append_nil, splitLinesFrom, if_pos (by decide)]
    intro rest' heq
    cases heq
  | cons c line ih =>
    have hc : isLineEnd c = false := h c List.mem_cons_self
    rw [List.cons_append, splitLinesFrom, if_neg (by simp [hc]),
      ih fun x hx => h x (List.mem_cons_of_mem _ hx)]
    · simp
    · intro rest' heq
      rw [heq] at hc
      cases hc

/-- Lines that were joined are taken apart again. -/
theorem splitLines_lines {lines : List (List Char)} (h : ∀ line ∈ lines, OneLine line) :
    splitLines (lines.flatMap (· ++ ['\n'])) = lines := by
  unfold splitLines
  induction lines with
  | nil => rfl
  | cons line lines ih =>
    have hrest := ih fun l hl => h l (List.mem_cons_of_mem _ hl)
    rw [List.flatMap_cons, List.append_assoc, List.singleton_append,
      splitLinesFrom_line (h line List.mem_cons_self), hrest, List.nil_append]

theorem intercalate_newline {lines : List (List Char)} (h : lines ≠ []) :
    ['\n'].intercalate lines ++ ['\n'] = lines.flatMap (· ++ ['\n']) := by
  induction lines with
  | nil => exact absurd rfl h
  | cons line lines ih =>
    cases lines with
    | nil => simp [List.intercalate_singleton]
    | cons next lines =>
      have hrest := ih (List.cons_ne_nil _ _)
      have hfirst : ['\n'].intercalate (line :: next :: lines) ++ ['\n'] =
          line ++ ['\n'] ++ (['\n'].intercalate (next :: lines) ++ ['\n']) := by
        simp [List.intercalate_cons_cons]
      rw [hfirst, hrest]
      rfl

/-- The tags that are written. -/
def writtenTags : List String := ["20", "25", "28C", "60F", "61", "86", "62F"]

/-- A line that begins with the tag opens a field. -/
def OpensField (tag : String) : Prop :=
  ∀ content, tagLine (fieldLine (tag, content)) = some (tag, content)

/-- A tag of two digits opens a field. -/
theorem opensField_two {a b : Char} (ha : isDecimal a = true) (hb : isDecimal b = true) :
    OpensField (String.ofList [a, b]) := by
  intro content
  simp [fieldLine, tagLine, ha, hb]

theorem opensField_three {a b letter : Char} (ha : isDecimal a = true) (hb : isDecimal b = true)
    (hletter : letter.isUpper = true) : OpensField (String.ofList [a, b, letter]) := by
  intro content
  have hcolon : letter ≠ ':' := fun heq => absurd (heq ▸ hletter) (by decide)
  have hmatch : tagLine (':' :: a :: b :: letter :: ':' :: content) =
      some (String.ofList [a, b, letter], content) := by
    rw [tagLine]
    · simp [ha, hb, hletter]
    · exact hcolon
  simpa [fieldLine] using hmatch

theorem opensField_of_mem {tag : String} (h : tag ∈ writtenTags) : OpensField tag := by
  have hdigit : ∀ c : Char, c.isDigit = true → isDecimal c = true := fun c => isDecimal_of_isDigit
  simp only [writtenTags, List.mem_cons, List.not_mem_nil, or_false] at h
  rcases h with rfl | rfl | rfl | rfl | rfl | rfl | rfl
  · exact opensField_two (hdigit '2' rfl) (hdigit '0' rfl)
  · exact opensField_two (hdigit '2' rfl) (hdigit '5' rfl)
  · exact opensField_three (hdigit '2' rfl) (hdigit '8' rfl) (by decide)
  · exact opensField_three (hdigit '6' rfl) (hdigit '0' rfl) (by decide)
  · exact opensField_two (hdigit '6' rfl) (hdigit '1' rfl)
  · exact opensField_two (hdigit '8' rfl) (hdigit '6' rfl)
  · exact opensField_three (hdigit '6' rfl) (hdigit '2' rfl) (by decide)

theorem isBlank_fieldLine (field : String × List Char) : isBlank (fieldLine field) = false := by
  have hcolon : pythonBlank ':' = false := by decide
  simp [isBlank, fieldLine, hcolon]

/-- A field that was written, with the number of its line. -/
def lexed (field : (String × List Char) × Nat) : LexedField := ⟨field.1.1, field.1.2, field.2⟩

/-- The lexer makes a field of each line that was written. -/
theorem foldlM_lexLine {fields : List (String × List Char)} (h : ∀ f ∈ fields, f.1 ∈ writtenTags)
    (state : LexState) (number : Nat) :
    ∃ state', ((fields.map fieldLine).zipIdx number).foldlM lexLine state = .ok state' ∧
      state'.flush = state.flush ++ (fields.zipIdx number).map lexed := by
  induction fields generalizing state number with
  | nil => exact ⟨state, rfl, by simp⟩
  | cons field fields ih =>
    have hstep : lexLine state (fieldLine field, number) =
        .ok ⟨state.flush, some ⟨field.1, [field.2], number⟩⟩ := by
      have htag := opensField_of_mem (h field List.mem_cons_self) field.2
      simp [lexLine, isBlank_fieldLine, htag]
    obtain ⟨state', hrun, hflush⟩ := ih (fun f hf => h f (List.mem_cons_of_mem _ hf))
      ⟨state.flush, some ⟨field.1, [field.2], number⟩⟩ (number + 1)
    refine ⟨state', ?_, ?_⟩
    · rw [List.map_cons, List.zipIdx_cons, List.foldlM_cons, hstep]
      exact hrun
    · have hclosed : LexState.flush ⟨state.flush, some ⟨field.1, [field.2], number⟩⟩ =
          state.flush ++ [lexed (field, number)] := by
        simp [LexState.flush, OpenField.close, lexed, List.intercalate_singleton]
      rw [hflush, hclosed, List.zipIdx_cons, List.map_cons, List.append_assoc, List.singleton_append]

/-- **The lexer gets the fields back.** -/
theorem lex_joinLines {fields : List (String × List Char)} (hne : fields ≠ [])
    (htags : ∀ f ∈ fields, f.1 ∈ writtenTags) (hlines : ∀ f ∈ fields, OneLine f.2) :
    lex (joinLines (fields.map fieldLine)).toList = .ok ((fields.zipIdx 1).map lexed) := by
  have hline : ∀ line ∈ fields.map fieldLine, OneLine line := by
    intro line hmem
    obtain ⟨field, hfield, rfl⟩ := List.mem_map.mp hmem
    have hall : writtenTags.all (fun tag => tag.toList.all fun c => !isLineEnd c) = true := by
      decide +kernel
    have htag : ∀ tag ∈ writtenTags, OneLine tag.toList :=
      fun tag hmem => oneLine_of_all (List.all_eq_true.mp hall tag hmem)
    intro c hc
    simp only [fieldLine, List.cons_append, List.mem_cons, List.mem_append] at hc
    rcases hc with rfl | hc | rfl | hc
    · decide
    · exact htag field.1 (htags field hfield) c hc
    · decide
    · exact hlines field hfield c hc
  obtain ⟨state, hrun, hflush⟩ := foldlM_lexLine htags {} 1
  have hnil : LexState.flush {} = [] := rfl
  rw [hnil, List.nil_append] at hflush
  have hfilled : state.flush ≠ [] := by
    rw [hflush]
    simp [hne]
  rw [joinLines, String.toList_ofList, intercalate_newline (by simp [hne]), lex,
    splitLines_lines hline, hrun]
  simp only [bind, Except.bind, if_neg hfilled, pure, Except.pure]
  rw [hflush]

/-! ## The header -/

theorem compactDay_length (day : Date) : (compactDay day).length = 6 := by
  simp [compactDay, shortDay, padded_length]

/-- A balance as it is read. -/
def balanceOf (tag : String) (minor : Int) (day : Date) (text : String) : Recon.Mt940.Balance :=
  ⟨tag, balanceMark minor, String.ofList (compactDay day), "INR", text⟩

theorem parseBalance_balanceField (tag : String) (minor : Int) (day : Date) (text : String) :
    parseBalance tag (balanceField tag minor day text).2 = .ok (balanceOf tag minor day text) := by
  have hmark : ∃ c, (balanceMark minor).toList = [c] ∧ String.ofList [c] = balanceMark minor := by
    unfold balanceMark
    split
    · exact ⟨'D', by decide, by decide⟩
    · exact ⟨'C', by decide, by decide⟩
  have hcurrency : ("INR" : String).toList.length = 3 := by decide
  have hinr : String.ofList "INR".toList = "INR" := String.ofList_toList
  obtain ⟨c, hlist, hback⟩ := hmark
  have hdate : (compactDay day ++ ("INR".toList ++ text.toList)).take 6 = compactDay day := by
    rw [List.take_append_of_le_length (by rw [compactDay_length]), List.take_of_length_le
      (by rw [compactDay_length])]
  have hrest : (compactDay day ++ ("INR".toList ++ text.toList)).drop 6 =
      "INR".toList ++ text.toList := by
    rw [← compactDay_length day, List.drop_left]
  have hamount : (compactDay day ++ ("INR".toList ++ text.toList)).drop 9 = text.toList := by
    rw [show (9 : Nat) = 6 + 3 from rfl, ← List.drop_drop, hrest, ← hcurrency, List.drop_left]
  rw [balanceField, hlist, List.singleton_append, parseBalance, balanceOf, hback, hdate, hrest,
    hamount, ← hcurrency, List.take_left, hinr, String.ofList_toList]

/-- Statement lines and narratives are no header fields. -/
theorem foldlM_headerField_body {fields : List LexedField}
    (h : ∀ f ∈ fields, f.tag = "61" ∨ f.tag = "86") (header : StatementHeader) :
    fields.foldlM headerField header = .ok header := by
  induction fields with
  | nil => rfl
  | cons field fields ih =>
    have hstep : headerField header field = .ok header := by
      rcases h field List.mem_cons_self with htag | htag <;>
        simp [headerField, htag, openingTags, closingTags]
    rw [List.foldlM_cons, hstep]
    exact ih fun f hf => h f (List.mem_cons_of_mem _ hf)

/-- The fields of a statement. -/
def statementFields (account statementNo : String) (opening closing : String × List Char)
    (body : List (String × List Char)) : List (String × List Char) :=
  headerFields account statementNo ++ [opening] ++ body ++ [closing]

theorem mem_zipIdx_lexed {fields : List (String × List Char)} {number : Nat} {field : LexedField}
    (h : field ∈ (fields.zipIdx number).map lexed) : (field.tag, field.content) ∈ fields := by
  obtain ⟨pair, hpair, rfl⟩ := List.mem_map.mp h
  exact List.fst_mem_of_mem_zipIdx hpair

/-- The balances of the header are the ones that were written. -/
theorem extractHeader_statementFields (account statementNo : String) (openingMinor closing : Int)
    (first last : Date) (openingText closingText : String) {body : List (String × List Char)}
    (hbody : ∀ f ∈ body, f.1 = "61" ∨ f.1 = "86") :
    ∃ header, extractHeader (((statementFields account statementNo
        (balanceField "60F" openingMinor first openingText)
        (balanceField "62F" closing last closingText) body).zipIdx 1).map lexed) = .ok header ∧
      header.openingBalance = some (balanceOf "60F" openingMinor first openingText) ∧
      header.closingBalance = some (balanceOf "62F" closing last closingText) := by
  have hopening := parseBalance_balanceField "60F" openingMinor first openingText
  have hclosing := parseBalance_balanceField "62F" closing last closingText
  have hskip : ∀ (header : StatementHeader) (number : Nat),
      ((body.zipIdx number).map lexed).foldlM headerField header = .ok header := by
    intro header number
    exact foldlM_headerField_body (fun f hf => hbody (f.tag, f.content) (mem_zipIdx_lexed hf)) header
  have hfirst : ∀ (header : StatementHeader) (number : Nat), headerField header
      (lexed (balanceField "60F" openingMinor first openingText, number)) =
        .ok { header with openingBalance := some (balanceOf "60F" openingMinor first openingText) } := by
    intro header number
    have hparse : parseBalance "60F" (lexed (balanceField "60F" openingMinor first openingText,
        number)).content = .ok (balanceOf "60F" openingMinor first openingText) := hopening
    have htag : (lexed (balanceField "60F" openingMinor first openingText, number)).tag = "60F" := rfl
    simp [headerField, htag, hparse, openingTags, Except.map]
  have hlast : ∀ (header : StatementHeader) (number : Nat), headerField header
      (lexed (balanceField "62F" closing last closingText, number)) =
        .ok { header with closingBalance := some (balanceOf "62F" closing last closingText) } := by
    intro header number
    have hparse : parseBalance "62F" (lexed (balanceField "62F" closing last closingText,
        number)).content = .ok (balanceOf "62F" closing last closingText) := hclosing
    have htag : (lexed (balanceField "62F" closing last closingText, number)).tag = "62F" := rfl
    simp [headerField, htag, hparse, openingTags, closingTags, Except.map]
  obtain ⟨header, hheader⟩ : ∃ header, ((headerFields account statementNo).zipIdx 1 |>.map lexed).foldlM
      headerField {} = .ok header := by
    simp [headerFields, lexed, headerField, bind, Except.bind, pure, Except.pure]
  have hrun : extractHeader (((statementFields account statementNo
      (balanceField "60F" openingMinor first openingText)
      (balanceField "62F" closing last closingText) body).zipIdx 1).map lexed) =
        .ok { header with
          openingBalance := some (balanceOf "60F" openingMinor first openingText)
          closingBalance := some (balanceOf "62F" closing last closingText) } := by
    rw [extractHeader, statementFields, List.zipIdx_append, List.zipIdx_append, List.zipIdx_append,
      List.map_append, List.map_append, List.map_append, List.foldlM_append, List.foldlM_append,
      List.foldlM_append, hheader]
    simp [bind, Except.bind, hfirst, hlast, hskip, pure, Except.pure]
  exact ⟨_, hrun, rfl, rfl⟩

/-! ## Rows -/

section

variable (lib : TextLibrary) (decimalSeparator : String)

/-- The row of an entry that was written. -/
def EntryRead (e : Entry) (row : ParsedRow) : Prop :=
  ∃ text number, decimalText e.amountMinor e.currency decimalSeparator = .ok text ∧
    row = buildRow lib decimalSeparator ⟨"61", statementLine e text, number⟩ (stripChars (narrative e))

theorem extractRows_skip {field : LexedField} (h : field.tag ≠ "61") (fields : List LexedField) :
    extractRows lib decimalSeparator (field :: fields) =
      extractRows lib decimalSeparator fields := by
  cases fields <;> simp [extractRows, h]

/-- A statement line with the narrative behind it makes one row. -/
theorem extractRows_entry {line narrative : LexedField} (hline : line.tag = "61")
    (hnarrative : narrative.tag = "86") (fields : List LexedField) :
    extractRows lib decimalSeparator (line :: narrative :: fields) =
      buildRow lib decimalSeparator line (stripChars narrative.content) ::
        extractRows lib decimalSeparator fields := by
  simp [extractRows, hline, hnarrative]

variable {decimalSeparator}

/-- An entry is written as a statement line and a narrative. -/
theorem writeEntry_ok {e : Entry} {fields : List (String × List Char)}
    (h : writeEntry decimalSeparator e = .ok fields) :
    ∃ text, decimalText e.amountMinor e.currency decimalSeparator = .ok text ∧
      fields = [("61", statementLine e text), ("86", narrative e)] := by
  obtain ⟨text, htext, hfields⟩ := except_bind_ok h
  exact ⟨text, htext, (Except.ok.inj hfields).symm⟩

/-- Every entry has its row, and the closing balance has none. -/
theorem rows_of_fields {entries : List Entry} {body : List (List (String × List Char))}
    (h : List.Forall₂ (fun e fields => writeEntry decimalSeparator e = .ok fields) entries body)
    {closing : String × List Char} (hclosing : closing.1 ≠ "61") (number : Nat) :
    List.Forall₂ (EntryRead lib decimalSeparator) entries
      (extractRows lib decimalSeparator (((body.flatten ++ [closing]).zipIdx number).map lexed)) := by
  induction h generalizing number with
  | nil =>
    have hlast : (lexed (closing, number)).tag ≠ "61" := hclosing
    simp [extractRows, hlast]
  | cons hwritten _ ih =>
    obtain ⟨text, htext, rfl⟩ := writeEntry_ok hwritten
    simp only [List.flatten_cons, List.cons_append, List.nil_append, List.zipIdx_cons, List.map_cons]
    rw [extractRows_entry lib decimalSeparator rfl rfl]
    exact List.Forall₂.cons ⟨text, number, htext, rfl⟩ (ih (number + 2))

end

/-! ## Entries that can be read -/

/-- An entry whose texts are on one line and whose reference has no blanks around it, in INR and of
the hundred years from 1969. -/
structure Readable (e : Entry) : Prop where
  currency : e.currency = "INR"
  amount : 0 ≤ e.amountMinor
  year : 1969 ≤ yearOf e.day ∧ yearOf e.day ≤ 2068
  reference : strip e.ref = e.ref ∧ e.ref ≠ ""
  referenceLine : OneLine e.ref.toList
  narrationLine : OneLine e.narration.toList

/-- The parts of a statement line. -/
def partsOf (e : Entry) (text : String) : Field61 where
  valueDate := compactDay e.day
  entryDate := some (shortDay e.day)
  mark := entryMark e
  fundsCode := none
  amount := text.toList
  typeCode := "NTRF".toList
  reference := e.ref.toList

theorem partsOf_text (e : Entry) (text : String) : (partsOf e text).text = statementLine e text := by
  simp [Field61.text, partsOf, statementLine]

theorem isAmountChar_amountText {exponent units : Nat} {separator : Char}
    (h : separator = '.' ∨ separator = ',') :
    (amountText exponent units separator).toList.all isAmountChar = true := by
  have hdigit : ∀ c : Char, c.isDigit = true → isAmountChar c = true := by
    intro c hc
    simp [isAmountChar, isDecimal_of_isDigit hc]
  have hseparator : isAmountChar separator = true := by
    rcases h with rfl | rfl <;> simp [isAmountChar]
  rw [amountText, String.toList_ofList, List.all_append, Bool.and_eq_true]
  refine ⟨List.all_eq_true.mpr fun c hc => hdigit c (digits_isDigit hc), ?_⟩
  split
  · rfl
  · rw [List.all_cons, hseparator, Bool.true_and]
    exact List.all_eq_true.mpr fun c hc => hdigit c (isDigit_padded c hc)

/-- A statement line that was written is a split that the pattern allows. -/
theorem partsOf_fits {e : Entry} (he : Readable e) {text : String}
    (hne : text ≠ "") (hamount : text.toList.all isAmountChar = true) : (partsOf e text).Fits where
  valueDate := by
    refine ⟨compactDay_length e.day, List.all_eq_true.mpr fun c hc => ?_⟩
    simp only [partsOf, compactDay, shortDay, List.mem_append] at hc
    rcases hc with hc | hc | hc <;> exact isDecimal_padded c hc
  entryDate := by
    intro short hshort
    obtain rfl : shortDay e.day = short := Option.some.inj hshort
    refine ⟨by simp [shortDay, padded_length], List.all_eq_true.mpr fun c hc => ?_⟩
    rw [shortDay, List.mem_append] at hc
    rcases hc with hc | hc <;> exact isDecimal_padded c hc
  mark := by
    simp only [partsOf, entryMark, Field61.marks]
    split <;> split <;> simp
  fundsCode := nofun
  amount := by
    refine ⟨fun hnil => hne ?_, hamount⟩
    exact String.toList_inj.mp (hnil.trans String.toList_empty.symm)
  typeCode := by
    show Field61.isTypeCode "NTRF".toList = true
    decide
  reference := by
    intro hmem
    have hline := he.referenceLine '\n' hmem
    cases hline

/-- The statement line of an entry is read back. -/
theorem parseField61_statementLine {e : Entry} (he : Readable e) {text : String}
    (hne : text ≠ "") (hamount : text.toList.all isAmountChar = true) :
    parseField61 (statementLine e text) = some ((partsOf e text).parsed none) := by
  have hfits := partsOf_fits he hne hamount
  obtain ⟨hfirst, hdetails⟩ := content_lines hfits none
  have hcontent : (partsOf e text).content none = statementLine e text := by
    rw [Field61.content, partsOf_text]
    simp
  rw [hcontent] at hfirst hdetails
  rw [parseField61_eq, hfirst, hdetails, takeParts_text hfits, Option.map_some]
  rfl

/-! ## What is read back -/

/-- The valid row of an entry: its reference, its mark, its amount and its day. -/
structure EntryRow (lib : TextLibrary) (decimalSeparator : String) (e : Entry) (row : ParsedRow) :
    Prop where
  valid : row.errors = []
  reference : row.mapped.lookup "reference" = some e.ref
  mark : row.mapped.lookup "direction" = some (entryMark e)
  amount : toMinor lib (row.mapped.lookup "amount") e.currency decimalSeparator =
    .ok (some e.amountMinor)
  day : (row.mapped.lookup "txn_date").bind (lib.strptime · "%y%m%d") = some ⟨e.day, 0⟩

section

variable (lib : TextLibrary) {separator : Char} {e : Entry} {row : ParsedRow}

/-- The point stands in the text that is checked. -/
theorem point_amountText (exponent units : Nat) {separator : Char}
    (hseparator : separator = '.' ∨ separator = ',') :
    (if String.singleton separator = "." then amountText exponent units separator
      else replaceText (amountText exponent units separator) (String.singleton separator) ".") =
      String.ofList (fixedDigits exponent units) := by
  rcases hseparator with rfl | rfl
  · rw [if_pos (by decide)]
    rfl
  · rw [if_neg (by decide), replaceText_amountText _ _ (by decide)]

theorem not_isBlank_of_strip {text : String} (hstrip : strip text = text) (hne : text ≠ "") :
    isBlank text.toList = false := by
  by_contra hblank
  have hall : ∀ c ∈ text.toList, pythonBlank c = true :=
    List.all_eq_true.mp (Bool.not_eq_false _ ▸ hblank)
  have hnil : text.toList.dropWhile pythonBlank = [] := List.dropWhile_eq_nil_iff.mpr hall
  rw [strip, stripChars, hnil] at hstrip
  exact hne hstrip.symm

theorem isDigit_separator (hseparator : separator = '.' ∨ separator = ',') :
    separator.isDigit = false := by
  rcases hseparator with rfl | rfl <;> decide

/-- The row of an entry has no errors. -/
theorem rowErrors_nil (hseparator : separator = '.' ∨ separator = ',') (he : Readable e)
    {text : String} (htext : decimalText e.amountMinor "INR" (String.singleton separator) = .ok text) :
    rowErrors (reading lib) (String.singleton separator) ((partsOf e text).parsed none) = [] := by
  obtain ⟨rfl, hshort⟩ := amountText_of_decimalText currencyExponent_inr he.amount htext
  have hreference : stripChars e.ref.toList = e.ref.toList := by
    have hstrip := congrArg String.toList he.reference.1
    rwa [strip, String.toList_ofList] at hstrip
  have hblank := not_isBlank_of_strip he.reference.1 he.reference.2
  have hday := strptimeDay_compact lib.strptime he.year
  have hread : readDecimal (String.ofList (fixedDigits 2 (keptUnits e.amountMinor).natAbs)) =
      .finite _ := readDecimal_fixedDigits (by decide) hshort
  simp only [rowErrors, Field61.parsed, partsOf, hreference, hblank, Bool.false_eq_true, if_false,
    reading_strptime, hday, Option.isNone_some, reading_decimal, String.ofList_toList,
    point_amountText _ _ hseparator, hread, reduceCtorEq, List.append_nil]

/-- The fields of the row of an entry. -/
theorem lookup_entryRead (hseparator : separator = '.' ∨ separator = ',') (he : Readable e)
    (h : EntryRead (reading lib) (String.singleton separator) e row) :
    ∃ text, decimalText e.amountMinor "INR" (String.singleton separator) = .ok text ∧
      row.errors = [] ∧ row.mapped = [("reference", e.ref),
        ("txn_date", String.ofList (compactDay e.day)), ("amount", text), ("direction", entryMark e),
        ("narration", String.ofList (stripChars (narrative e)))] := by
  obtain ⟨text, number, htext, rfl⟩ := h
  rw [he.currency] at htext
  obtain ⟨heq, -⟩ := amountText_of_decimalText currencyExponent_inr he.amount htext
  have hne : text ≠ "" := heq ▸ amountText_ne_empty _ _ _
  have hamount : text.toList.all isAmountChar = true := heq ▸ isAmountChar_amountText hseparator
  have hparsed := parseField61_statementLine he hne hamount
  have herrors := rowErrors_nil lib hseparator he htext
  have hreference : String.ofList (stripChars e.ref.toList) = e.ref := he.reference.1
  refine ⟨text, htext, ?_, ?_⟩
  · simp only [buildRow, hparsed, herrors]
  · simp only [buildRow, hparsed, Field61.parsed, partsOf, hreference, String.ofList_toList]

/-- A row that was read is the row of its entry, where the amount is kept. -/
theorem entryRow_of_kept (hseparator : separator = '.' ∨ separator = ',') (he : Readable e)
    (hkept : Kept e.amountMinor) (h : EntryRead (reading lib) (String.singleton separator) e row) :
    EntryRow (reading lib) (String.singleton separator) e row := by
  obtain ⟨text, htext, herrors, hmapped⟩ := lookup_entryRead lib hseparator he h
  have hdigit := isDigit_separator hseparator
  obtain ⟨hfits, hunits⟩ := kept_iff.mp hkept
  have hread := toMinor_of_decimalText lib currencyExponent_inr he.amount hdigit htext
  rw [hfits, hunits] at hread
  have hday := strptimeDay_compact lib.strptime he.year
  constructor
  case valid => exact herrors
  case reference => simp [hmapped]
  case mark => simp [hmapped, List.lookup_cons]
  case amount => simpa [hmapped, List.lookup_cons, he.currency] using hread
  case day => simp [hmapped, List.lookup_cons, hday]

theorem kept_of_entryRow (hseparator : separator = '.' ∨ separator = ',') (he : Readable e)
    (hread : EntryRead (reading lib) (String.singleton separator) e row)
    (hrow : EntryRow (reading lib) (String.singleton separator) e row) : Kept e.amountMinor := by
  obtain ⟨text, htext, -, hmapped⟩ := lookup_entryRead lib hseparator he hread
  have hdigit := isDigit_separator hseparator
  have hminor := hrow.amount
  have hfield : row.mapped.lookup "amount" = some text := by simp [hmapped, List.lookup_cons]
  rw [hfield, he.currency,
    toMinor_of_decimalText lib currencyExponent_inr he.amount hdigit htext] at hminor
  split at hminor
  · cases hminor
  · rename_i hfits
    exact kept_iff.mpr ⟨Bool.eq_false_iff.mpr hfits, by simpa using hminor⟩

/-- The sign of a mark. -/
def markSign (e : Entry) : Int := if (e.direction = .cr) = (e.reversal = false) then 1 else -1

theorem lookup_entryMark (e : Entry) :
    markSigns.lookup ((strip (entryMark e)).toUpper) = some (markSign e) := by
  unfold entryMark markSign
  cases e.direction <;> cases e.reversal <;> decide +kernel

theorem markSign_mul (e : Entry) : e.amountMinor * markSign e = signed e := by
  unfold markSign signed
  cases e.direction <;> cases e.reversal <;> simp

/-- What the balance check adds for an entry. -/
theorem rowEntry_of_kept (hseparator : separator = '.' ∨ separator = ',') (he : Readable e)
    (hkept : Kept e.amountMinor) (h : EntryRead (reading lib) (String.singleton separator) e row) :
    rowEntry (reading lib) "INR" (String.singleton separator) row = .ok (some (signed e)) := by
  obtain ⟨text, htext, -, hmapped⟩ := lookup_entryRead lib hseparator he h
  have hdigit := isDigit_separator hseparator
  obtain ⟨hfits, hunits⟩ := kept_iff.mp hkept
  have hread := toMinor_of_decimalText lib currencyExponent_inr he.amount hdigit htext
  rw [hfits, hunits] at hread
  have hlookup := lookup_entryMark e
  have hfield : row.mapped.lookup "direction" = some (entryMark e) ∧
      row.mapped.lookup "amount" = some text ∧ row.mapped.lookup "currency" = none := by
    simp [hmapped, List.lookup_cons]
  have hname : nonBlank none = none := rfl
  simp only [rowEntry, rowCurrency, hfield, hname, Option.getD_none, Option.getD_some, hread,
    reading_upper, hlookup, markSign_mul, bind, Except.bind, pure, Except.pure, Bool.false_eq_true, if_false]

end

/-! ## The law -/

section

variable (lib : TextLibrary) {entries : List Entry} {separator : Char}
  {account statementNo : String} {openingMinor unbalancedByMinor : Int}

/-- The parts of a statement that was written. -/
structure Written (entries : List Entry) (decimalSeparator account statementNo : String)
    (openingMinor unbalancedByMinor : Int) (openingText closingText : String)
    (body : List (List (String × List Char))) (text : String) : Prop where
  opening : decimalText |openingMinor| "INR" decimalSeparator = .ok openingText
  closing : decimalText |closingMinor entries openingMinor unbalancedByMinor| "INR"
    decimalSeparator = .ok closingText
  fields : List.Forall₂ (fun e fields => writeEntry decimalSeparator e = .ok fields) entries body
  text : text = joinLines ((statementFields account statementNo
    (balanceField "60F" openingMinor (firstDay entries) openingText)
    (balanceField "62F" (closingMinor entries openingMinor unbalancedByMinor) (lastDay entries)
      closingText) body.flatten).map fieldLine)

/-- The writer writes when its amounts can be written. -/
theorem writeMt940_ok_iff {decimalSeparator text : String} :
    writeMt940 entries decimalSeparator account statementNo openingMinor unbalancedByMinor =
        .ok text ↔
      ∃ openingText closingText body, Written entries decimalSeparator account statementNo
        openingMinor unbalancedByMinor openingText closingText body text := by
  unfold writeMt940
  constructor
  · intro h
    obtain ⟨openingText, hopening, h⟩ := except_bind_ok h
    obtain ⟨body, hbody, h⟩ := except_bind_ok h
    obtain ⟨closingText, hclosing, h⟩ := except_bind_ok h
    exact ⟨openingText, closingText, body, hopening, hclosing, Traversal.mapM_eq_ok_iff.mp hbody,
      (Except.ok.inj h).symm⟩
  · rintro ⟨openingText, closingText, body, hopening, hclosing, hbody, rfl⟩
    simp only [hopening, hclosing, Traversal.mapM_eq_ok_iff.mpr hbody, bind, Except.bind]
    rfl

/-- The fields of the entries have the tags of entries, and one line each. -/
theorem mem_body {decimalSeparator : String} {body : List (List (String × List Char))}
    (h : List.Forall₂ (fun e fields => writeEntry decimalSeparator e = .ok fields) entries body)
    {p : String × List Char → Prop}
    (hp : ∀ e ∈ entries, ∀ text, decimalText e.amountMinor e.currency decimalSeparator = .ok text →
      p ("61", statementLine e text) ∧ p ("86", narrative e)) : ∀ f ∈ body.flatten, p f := by
  intro f hf
  obtain ⟨fields, hfields, hmem⟩ := List.mem_flatten.mp hf
  have hall : ∀ fields ∈ body, ∀ f ∈ fields, p f := by
    refine Traversal.forall_of_mapM (Traversal.mapM_eq_ok_iff.mpr h) fun e he fields hwritten => ?_
    obtain ⟨text, htext, rfl⟩ := writeEntry_ok hwritten
    obtain ⟨hline, hnarrative⟩ := hp e he text htext
    simp [hline, hnarrative]
  exact hall fields hfields f hmem

theorem OneLine.append {a b : List Char} (ha : OneLine a) (hb : OneLine b) : OneLine (a ++ b) := by
  intro c hc
  rcases List.mem_append.mp hc with hc | hc
  · exact ha c hc
  · exact hb c hc

theorem oneLine_of_isDigit {text : List Char} (h : ∀ c ∈ text, c.isDigit = true) : OneLine text := by
  intro c hc
  obtain ⟨hlow, hhigh⟩ := Char.isDigit_iff_toNat.mp (h c hc)
  have htable : ∀ n ∈ [0x0a, 0x0b, 0x0c, 0x0d, 0x1c, 0x1d, 0x1e, 0x85, 0x2028, 0x2029],
      n < 0x30 ∨ 0x39 < n := by decide
  rw [isLineEnd, List.contains_eq_mem, decide_eq_false_iff_not]
  intro hmem
  have hrange := htable c.toNat hmem
  have hzero : '0'.toNat = 0x30 := rfl
  have hnine : '9'.toNat = 0x39 := rfl
  omega

theorem oneLine_compactDay (day : Date) : OneLine (compactDay day) := by
  refine oneLine_of_isDigit fun c hc => ?_
  simp only [compactDay, shortDay, List.mem_append] at hc
  rcases hc with hc | hc | hc <;> exact isDigit_padded c hc

theorem oneLine_shortDay (day : Date) : OneLine (shortDay day) := by
  refine oneLine_of_isDigit fun c hc => ?_
  simp only [shortDay, List.mem_append] at hc
  rcases hc with hc | hc <;> exact isDigit_padded c hc

theorem oneLine_amountText {exponent units : Nat} (hseparator : separator = '.' ∨ separator = ',') :
    OneLine (amountText exponent units separator).toList := by
  rw [amountText, String.toList_ofList]
  refine (oneLine_of_isDigit fun c hc => digits_isDigit hc).append ?_
  split
  · intro c hc
    cases hc
  · have hpadded := oneLine_of_isDigit (@isDigit_padded exponent (units % 10 ^ exponent))
    intro c hc
    rcases List.mem_cons.mp hc with rfl | hc
    · rcases hseparator with rfl | rfl <;> decide
    · exact hpadded c hc

theorem oneLine_reference {statementNo : String} (h : OneLine statementNo.toList) :
    OneLine (replaceText statementNo "/" "").toList := by
  have hslash : "/" = String.singleton '/' := by decide
  have hback : statementNo = String.ofList statementNo.toList := String.ofList_toList.symm
  rw [hslash, hback, replaceText_singleton, String.toList_ofList, String.toList_empty]
  intro c hc
  obtain ⟨x, hx, hcx⟩ := List.mem_flatMap.mp hc
  split at hcx
  · cases hcx
  · obtain rfl := List.mem_singleton.mp hcx
    exact h c hx

theorem oneLine_balanceField (tag : String) (minor : Int) (day : Date) {text : String}
    (htext : OneLine text.toList) : OneLine (balanceField tag minor day text).2 := by
  have hmark : OneLine (balanceMark minor).toList := by
    unfold balanceMark
    split <;> exact oneLine_of_all (by decide +kernel)
  have hinr : OneLine "INR".toList := oneLine_of_all (by decide +kernel)
  exact hmark.append ((oneLine_compactDay day).append (hinr.append htext))

theorem oneLine_statementLine {e : Entry} (he : Readable e) {text : String}
    (htext : OneLine text.toList) : OneLine (statementLine e text) := by
  have hmark : OneLine (entryMark e).toList := by
    unfold entryMark
    split <;> split <;> exact oneLine_of_all (by decide +kernel)
  have hcode : OneLine "NTRF".toList := oneLine_of_all (by decide +kernel)
  exact (oneLine_compactDay e.day).append ((oneLine_shortDay e.day).append
    (hmark.append (htext.append (hcode.append he.referenceLine))))

theorem oneLine_narrative {e : Entry} (he : Readable e) : OneLine (narrative e) := by
  unfold narrative
  split
  · exact oneLine_of_all (by decide +kernel)
  · exact he.narrationLine

/-- The rows begin after the header. -/
theorem extractRows_statementFields {opening closing : String × List Char}
    (hopening : opening.1 = "60F") (body : List (String × List Char)) (decimalSeparator : String) :
    extractRows lib decimalSeparator
        (((statementFields account statementNo opening closing body).zipIdx 1).map lexed) =
      extractRows lib decimalSeparator (((body ++ [closing]).zipIdx 5).map lexed) := by
  have hfields : statementFields account statementNo opening closing body =
      ("20", "STMT".toList ++ (replaceText statementNo "/" "").toList) :: ("25", account.toList) ::
        ("28C", statementNo.toList) :: opening :: (body ++ [closing]) := by
    simp [statementFields, headerFields]
  have hskip : ∀ (field : String × List Char) (number : Nat), field.1 ≠ "61" →
      (lexed (field, number)).tag ≠ "61" := fun field number h => h
  rw [hfields]
  simp only [List.zipIdx_cons, List.map_cons]
  rw [extractRows_skip _ _ (hskip _ _ (by simp)), extractRows_skip _ _ (hskip _ _ (by simp)),
    extractRows_skip _ _ (hskip _ _ (by simp)),
    extractRows_skip _ _ (hskip _ _ (by simp [hopening]))]

/-- The rows and the balances of a statement, as the parser has them. -/
theorem parse_written {config : BankFormats} {openingText closingText text : String}
    {body : List (List (String × List Char))} (hseparator : separator = '.' ∨ separator = ',')
    (hconfig : config.mt940 = some ⟨String.singleton separator⟩) (haccount : OneLine account.toList)
    (hstatement : OneLine statementNo.toList) (hentries : ∀ e ∈ entries, Readable e)
    (h : Written entries (String.singleton separator) account statementNo openingMinor
      unbalancedByMinor openingText closingText body text) :
    ∃ header rows, parseWithHeader (reading lib) text config = .ok (header, rows) ∧
      List.Forall₂ (EntryRead (reading lib) (String.singleton separator)) entries rows ∧
      (Header.mt940 header).stated = some
        ((balanceOf "60F" openingMinor (firstDay entries) openingText).stated,
          (balanceOf "62F" (closingMinor entries openingMinor unbalancedByMinor) (lastDay entries)
            closingText).stated) := by
  obtain ⟨hopening, hclosing, hbody, rfl⟩ := h
  have hline : ∀ {n : Int} {text : String}, 0 ≤ n →
      decimalText n "INR" (String.singleton separator) = .ok text → OneLine text.toList := by
    intro n text hn htext
    rw [(amountText_of_decimalText currencyExponent_inr hn htext).1]
    exact oneLine_amountText hseparator
  have hentry := mem_body hbody (p := fun f => (f.1 = "61" ∨ f.1 = "86") ∧ OneLine f.2)
    fun e he text htext => by
      rw [(hentries e he).currency] at htext
      exact ⟨⟨Or.inl rfl, oneLine_statementLine (hentries e he) (hline (hentries e he).amount htext)⟩,
        Or.inr rfl, oneLine_narrative (hentries e he)⟩
  have hfields : ∀ f ∈ statementFields account statementNo
      (balanceField "60F" openingMinor (firstDay entries) openingText)
      (balanceField "62F" (closingMinor entries openingMinor unbalancedByMinor) (lastDay entries)
        closingText) body.flatten, f.1 ∈ writtenTags ∧ OneLine f.2 := by
    intro f hf
    simp only [statementFields, headerFields, List.mem_append, List.mem_cons, List.not_mem_nil,
      or_false] at hf
    rcases hf with (((rfl | rfl | rfl) | rfl) | hf) | rfl
    · have hprefix : OneLine "STMT".toList := oneLine_of_all (by decide +kernel)
      exact ⟨by simp [writtenTags], hprefix.append (oneLine_reference hstatement)⟩
    · exact ⟨by simp [writtenTags], haccount⟩
    · exact ⟨by simp [writtenTags], hstatement⟩
    · exact ⟨by simp [writtenTags, balanceField], oneLine_balanceField _ _ _ (hline (abs_nonneg _) hopening)⟩
    · obtain ⟨htag, hone⟩ := hentry f hf
      refine ⟨?_, hone⟩
      rcases htag with htag | htag <;> simp [writtenTags, htag]
    · exact ⟨by simp [writtenTags, balanceField], oneLine_balanceField _ _ _ (hline (abs_nonneg _) hclosing)⟩
  have hlex := lex_joinLines (by simp [statementFields]) (fun f hf => (hfields f hf).1)
    fun f hf => (hfields f hf).2
  obtain ⟨header, hheader, hfirst, hlast⟩ := extractHeader_statementFields account statementNo
    openingMinor (closingMinor entries openingMinor unbalancedByMinor) (firstDay entries)
    (lastDay entries) openingText closingText fun f hf => (hentry f hf).1
  have hclosingTag : (balanceField "62F" (closingMinor entries openingMinor unbalancedByMinor)
      (lastDay entries) closingText).1 ≠ "61" := by
    simp [balanceField]
  have hrows := rows_of_fields (reading lib) hbody hclosingTag 5
  refine ⟨header, _, ?_, hrows, ?_⟩
  · rw [parseWithHeader_of_lex (reading lib) hconfig hlex, hheader,
      extractRows_statementFields (reading lib) rfl]
    rfl
  · simp [Header.stated, hfirst, hlast]

/-- A balance is stated with its sign as a mark. -/
theorem balanceMark_sign (minor : Int) :
    |minor| * (markSigns.lookup (balanceMark minor)).getD 1 = minor := by
  have hdebit : markSigns.lookup "D" = some (-1) := by decide
  have hcredit : markSigns.lookup "C" = some 1 := by decide
  unfold balanceMark
  split
  · rename_i hneg
    simp [hdebit, abs_of_neg hneg]
  · rename_i hpos
    simp [hcredit, abs_of_nonneg (not_lt.mp hpos)]

end

/-- **A statement is read back**, and balances when nothing was added to break it. -/
theorem writeMt940_readsBack (lib : TextLibrary) (entries : List Entry) {separator : Char}
    (hseparator : separator = '.' ∨ separator = ',') (account statementNo : String)
    (openingMinor unbalancedByMinor : Int) {config : BankFormats}
    (hconfig : config.mt940 = some ⟨String.singleton separator⟩) (haccount : OneLine account.toList)
    (hstatement : OneLine statementNo.toList) (hentries : ∀ e ∈ entries, Readable e)
    (hkept : ∀ e ∈ entries, Kept e.amountMinor) (hopening : Kept |openingMinor|)
    (hclosing : Kept |closingMinor entries openingMinor unbalancedByMinor|) :
    ∃ text header rows check,
      writeMt940 entries (String.singleton separator) account statementNo openingMinor
        unbalancedByMinor = .ok text ∧
      parseWithHeader (reading lib) text config = .ok (header, rows) ∧
      List.Forall₂ (EntryRow (reading lib) (String.singleton separator)) entries rows ∧
      ingestionCheck (reading lib) (.mt940 header) rows (String.singleton separator) =
        .ok (some check) ∧
      (check.balanced = true ↔ unbalancedByMinor = 0) := by
  have hdigit := isDigit_separator hseparator
  obtain ⟨openingText, hopeningText, hopeningRead⟩ :=
    written_of_kept lib currencyExponent_inr hopening (abs_nonneg _) hdigit
  obtain ⟨closingText, hclosingText, hclosingRead⟩ :=
    written_of_kept lib currencyExponent_inr hclosing (abs_nonneg _) hdigit
  obtain ⟨body, hbody⟩ : ∃ body, entries.mapM (writeEntry (String.singleton separator)) =
      .ok body := by
    refine Traversal.exists_mapM_ok fun e he => ?_
    obtain ⟨text, htext, -⟩ :=
      written_of_kept lib currencyExponent_inr (hkept e he) (hentries e he).amount hdigit
    rw [← (hentries e he).currency] at htext
    exact ⟨_, by rw [writeEntry, htext]; rfl⟩
  have hwritten : Written entries (String.singleton separator) account statementNo openingMinor
      unbalancedByMinor openingText closingText body _ :=
    ⟨hopeningText, hclosingText, Traversal.mapM_eq_ok_iff.mp hbody, rfl⟩
  obtain ⟨header, rows, hparse, hread, hstated⟩ :=
    parse_written lib hseparator hconfig haccount hstatement hentries hwritten
  have hvalues : rows.mapM (rowEntry (reading lib) "INR" (String.singleton separator)) =
      .ok ((entries.map signed).map some) := by
    rw [Traversal.mapM_eq_ok_iff, List.forall₂_map_right_iff, List.forall₂_map_right_iff]
    exact (Traversal.forall₂_of_mem hread fun e he row hrow =>
      rowEntry_of_kept lib hseparator (hentries e he) (hkept e he) hrow).flip
  obtain ⟨check, hcheck, hbalanced⟩ := ingestionCheck_ok hstated hopeningRead hclosingRead hvalues
  refine ⟨_, header, rows, check, writeMt940_ok_iff.mpr ⟨_, _, _, hwritten⟩, hparse, ?_, hcheck, ?_⟩
  · exact Traversal.forall₂_of_mem hread fun e he row hrow =>
      entryRow_of_kept lib hseparator (hentries e he) (hkept e he) hrow
  · have hsums : |openingMinor| * (markSigns.lookup (balanceMark openingMinor)).getD 1 +
        (entries.map signed).sum = |closingMinor entries openingMinor unbalancedByMinor| *
          (markSigns.lookup (balanceMark
            (closingMinor entries openingMinor unbalancedByMinor))).getD 1 ↔
        unbalancedByMinor = 0 := by
      rw [balanceMark_sign, balanceMark_sign, closingMinor]
      omega
    exact hbalanced.trans hsums

theorem onePayment_readable (reversal : Bool) : Readable (onePayment reversal) where
  currency := rfl
  amount := by simp [onePayment]
  year := by
    show 1969 ≤ yearOf 739676 ∧ yearOf 739676 ≤ 2068
    decide
  reference := by
    show strip "PAY42" = "PAY42" ∧ "PAY42" ≠ ""
    decide +kernel
  referenceLine := by
    show OneLine "PAY42".toList
    exact oneLine_of_all (by decide +kernel)
  narrationLine := by
    intro c hc
    simp [onePayment] at hc

/-- A payment taken back, in a statement that is meant to miss five rupees. -/
theorem writeMt940_readsBack_onePayment :
    ∃ text header rows check,
      writeMt940 [onePayment true] (String.singleton ',') "IN01" "1/1" mt940DefaultOpeningMinor 500 =
        .ok text ∧
      parseWithHeader (reading amountLibrary) text statementBank = .ok (header, rows) ∧
      List.Forall₂ (EntryRow (reading amountLibrary) (String.singleton ',')) [onePayment true] rows ∧
      ingestionCheck (reading amountLibrary) (.mt940 header) rows (String.singleton ',') =
        .ok (some check) ∧
      (check.balanced = true ↔ (500 : Int) = 0) := by
  have hline : OneLine "IN01".toList ∧ OneLine "1/1".toList :=
    ⟨oneLine_of_all (by decide +kernel), oneLine_of_all (by decide +kernel)⟩
  have hbank : statementBank.mt940 = some ⟨String.singleton ','⟩ := by decide
  refine writeMt940_readsBack amountLibrary [onePayment true] (Or.inr rfl) "IN01" "1/1"
    mt940DefaultOpeningMinor 500 hbank hline.1 hline.2 ?_ ?_ (kept_of_abs_le (by decide))
    (kept_of_abs_le (by decide))
  · intro e he
    obtain rfl := List.mem_singleton.mp he
    exact onePayment_readable true
  · intro e he
    obtain rfl := List.mem_singleton.mp he
    exact kept_of_abs_le (by decide)

/-- A payment with one digit more than the decimal context keeps. -/
def bigPayment : Entry := { onePayment false with amountMinor := 10 ^ 28 + 1 }

/-- Its last digit is lost. -/
theorem bigPayment_rounded :
    ¬ ∀ (lib : TextLibrary) (entries : List Entry) (separator : Char) (account statementNo : String)
      (openingMinor unbalancedByMinor : Int) (config : BankFormats),
      separator = '.' ∨ separator = ',' → config.mt940 = some ⟨String.singleton separator⟩ →
      OneLine account.toList → OneLine statementNo.toList → (∀ e ∈ entries, Readable e) →
      ∃ text header rows check,
        writeMt940 entries (String.singleton separator) account statementNo openingMinor
          unbalancedByMinor = .ok text ∧
        parseWithHeader (reading lib) text config = .ok (header, rows) ∧
        List.Forall₂ (EntryRow (reading lib) (String.singleton separator)) entries rows ∧
        ingestionCheck (reading lib) (.mt940 header) rows (String.singleton separator) =
          .ok (some check) ∧
        (check.balanced = true ↔ unbalancedByMinor = 0) := by
  intro h
  have hline : OneLine "IN01".toList ∧ OneLine "1/1".toList :=
    ⟨oneLine_of_all (by decide +kernel), oneLine_of_all (by decide +kernel)⟩
  have hbank : statementBank.mt940 = some ⟨String.singleton ','⟩ := by decide
  have hreadable : ∀ e ∈ [bigPayment], Readable e := by
    intro e he
    obtain rfl := List.mem_singleton.mp he
    obtain ⟨hcurrency, -, hyear, hreference, hrefLine, hnarration⟩ := onePayment_readable false
    exact ⟨hcurrency, by simp [bigPayment], hyear, hreference, hrefLine, hnarration⟩
  obtain ⟨text, header, rows, check, hwrite, hparse, hrows, -⟩ := h amountLibrary [bigPayment] ','
    "IN01" "1/1" mt940DefaultOpeningMinor 0 statementBank (Or.inr rfl) hbank hline.1 hline.2 hreadable
  obtain ⟨openingText, closingText, body, hwritten⟩ := writeMt940_ok_iff.mp hwrite
  obtain ⟨header', rows', hparse', hread, -⟩ := parse_written amountLibrary (Or.inr rfl) hbank
    hline.1 hline.2 hreadable hwritten
  cases hparse.symm.trans hparse'
  have hkept := Traversal.forall_mem_of_forall₂ (p := fun e => Kept e.amountMinor) (Traversal.forall₂_and hread hrows)
    fun e he row h => kept_of_entryRow amountLibrary (Or.inr rfl) (hreadable e he) h.1 h.2
  exact not_kept (hkept bigPayment List.mem_cons_self)

end Recon.Samples.Mt940
