import ReconEngine.Ingestion.Mt940

/-!
# What the MT940 parser keeps and how it fails

The lexer loses no line, the rows follow the statement lines one to one, and one kind of content
makes the parser raise an error that is not its own: an empty balance.

**The laws** (`parse_lossless`, `parse_fails_own_iff`): the lines of the fields are the non-blank
lines of the text, and the rows are those of the statement lines, in order, each with the narrative
behind it but for the blanks around that; and the parser returns or fails with an error of its own
exactly when no balance is empty.

**What they do not establish.** That a header field which comes twice is kept twice: the last one
stands. A narrative that does not stand directly behind a statement line belongs to no row.
-/

set_option autoImplicit false

namespace Recon.Mt940

/-! ## Lines of fields -/

/-- A field as it stands in the text. -/
def LexedField.text (field : LexedField) : List Char :=
  ':' :: field.tag.toList ++ ':' :: field.content

/-- The lines of a field. -/
def LexedField.lines (field : LexedField) : List (List Char) := field.text.splitOn '\n'

/-- The lines that an open field has so far. -/
def OpenField.lines (field : OpenField) : List (List Char) :=
  match field.content with
  | [] => []
  | first :: more => (':' :: field.tag.toList ++ ':' :: first) :: more

/-- An open field has a first line, and none of its lines holds a line feed. -/
structure OpenField.WellFormed (field : OpenField) : Prop where
  content : field.content ≠ []
  lines : ∀ l ∈ field.lines, '\n' ∉ l

theorem tagLine_eq {line : List Char} {tag : String} {content : List Char}
    (h : tagLine line = some (tag, content)) : line = ':' :: tag.toList ++ ':' :: content := by
  unfold tagLine at h
  split at h
  · split at h
    · split at h
      · cases h
        simp
      · split at h
        · cases h
          simp
        · cases h
      · cases h
    · cases h
  · cases h

/-- Closing a field keeps its lines. -/
theorem OpenField.close_lines {field : OpenField} (h : field.WellFormed) :
    field.close.lines = field.lines := by
  obtain ⟨hcontent, hlines⟩ := h
  cases hfield : field.content with
  | nil => exact absurd hfield hcontent
  | cons first more =>
    have heq : field.lines = (':' :: field.tag.toList ++ ':' :: first) :: more := by
      simp [OpenField.lines, hfield]
    have htext : field.close.text = ['\n'].intercalate field.lines := by
      rw [heq]
      cases more with
      | nil => simp [OpenField.close, LexedField.text, hfield, List.intercalate_singleton]
      | cons second more =>
        simp [OpenField.close, LexedField.text, hfield, List.intercalate_cons_cons]
    rw [LexedField.lines, htext, List.splitOn_intercalate '\n' hlines]
    rw [heq]
    exact List.cons_ne_nil _ _

/-- The fields so far, with the open one closed, have the lines that were read. -/
structure LexState.Holds (state : LexState) (read : List (List Char)) : Prop where
  lines : state.flush.flatMap LexedField.lines = read
  current : ∀ field, state.current = some field → field.WellFormed

/-- A line is kept, in the field it opens or in the one that is open. -/
theorem lexLine_keeps {state state' : LexState} {line : List Char} {number : Nat}
    {read : List (List Char)} (h : lexLine state (line, number) = .ok state')
    (hline : '\n' ∉ line) (hstate : state.Holds read) :
    state'.Holds (read ++ [line].filter (!isBlank ·)) := by
  unfold lexLine at h
  by_cases hblank : isBlank line = true
  · simp only [hblank, if_true, Except.ok.injEq] at h
    subst h
    simpa [hblank] using hstate
  · simp only [hblank, if_false, Bool.false_eq_true] at h
    have hread : [line].filter (!isBlank ·) = [line] := by simp [hblank]
    rw [hread]
    cases htag : tagLine line with
    | some opened =>
      obtain ⟨tag, content⟩ := opened
      simp only [htag, Except.ok.injEq] at h
      subst h
      have heq := tagLine_eq htag
      have hopen : OpenField.WellFormed ⟨tag, [content], number⟩ := by
        refine ⟨List.cons_ne_nil _ _, fun l hl => ?_⟩
        have hl : l = line := by simpa [OpenField.lines, ← heq] using hl
        exact hl ▸ hline
      constructor
      · simp only [LexState.flush, Option.map_some, Option.toList_some, List.flatMap_append,
          List.flatMap_singleton, OpenField.close_lines hopen]
        have hbefore := hstate.lines
        rw [LexState.flush, List.flatMap_append] at hbefore
        rw [hbefore]
        simp [OpenField.lines, ← heq]
      · intro field hfield
        cases hfield
        exact hopen
    | none =>
      cases hcurrent : state.current with
      | none => simp [htag, hcurrent] at h
      | some field =>
        simp only [htag, hcurrent, Except.ok.injEq] at h
        subst h
        have hfield := hstate.current field hcurrent
        obtain ⟨first, more, hcontent⟩ := List.exists_cons_of_ne_nil hfield.content
        have hlines : OpenField.lines { field with content := field.content ++ [line] } =
            field.lines ++ [line] := by
          simp [OpenField.lines, hcontent]
        have hopen : OpenField.WellFormed { field with content := field.content ++ [line] } := by
          refine ⟨by simp, fun l hl => ?_⟩
          rw [hlines, List.mem_append, List.mem_singleton] at hl
          obtain hl | rfl := hl
          · exact hfield.lines l hl
          · exact hline
        constructor
        · have hbefore := hstate.lines
          simp only [LexState.flush, hcurrent, Option.map_some, Option.toList_some,
            List.flatMap_append, List.flatMap_singleton, OpenField.close_lines hfield] at hbefore
          simp only [LexState.flush, Option.map_some, Option.toList_some, List.flatMap_append,
            List.flatMap_singleton, OpenField.close_lines hopen, hlines]
          rw [← List.append_assoc, hbefore]
        · intro opened hopened
          cases hopened
          exact hopen

theorem lexLines_keeps {lines : List (List Char × Nat)} {state state' : LexState}
    {read : List (List Char)} (h : lines.foldlM lexLine state = .ok state')
    (hlines : ∀ l ∈ lines, '\n' ∉ l.1) (hstate : state.Holds read) :
    state'.Holds (read ++ (lines.map (·.1)).filter (!isBlank ·)) := by
  induction lines generalizing state read with
  | nil =>
    cases h
    simpa using hstate
  | cons line lines ih =>
    rw [List.foldlM_cons] at h
    cases hstep : lexLine state line with
    | error e => simp [hstep, bind, Except.bind] at h
    | ok next =>
      rw [hstep] at h
      have hnext := lexLine_keeps hstep (hlines line List.mem_cons_self) hstate
      have hrest := ih h (fun l hl => hlines l (List.mem_cons_of_mem _ hl)) hnext
      rw [List.map_cons, ← List.singleton_append, List.filter_append, ← List.append_assoc]
      exact hrest

/-- **No line is lost**: the lines of the fields are the non-blank lines of the text, in order. -/
theorem lex_lines {text : List Char} {fields : List LexedField} (h : lex text = .ok fields) :
    fields.flatMap LexedField.lines = (splitLines text).filter (!isBlank ·) := by
  unfold lex at h
  cases hrun : ((splitLines text).zipIdx 1).foldlM lexLine {} with
  | error e => simp [hrun, bind, Except.bind] at h
  | ok state =>
    simp only [hrun, bind, Except.bind, pure, Except.pure] at h
    split at h
    · cases h
    · cases h
      have hnone : LexState.Holds {} [] :=
        ⟨rfl, fun field hfield => by cases hfield⟩
      have hlines : ∀ l ∈ (splitLines text).zipIdx 1, '\n' ∉ l.1 := by
        intro l hl
        exact newline_not_mem_splitLines (List.fst_mem_of_mem_zipIdx hl)
      have hkept := (lexLines_keeps hrun hlines hnone).lines
      rwa [List.nil_append, List.zipIdx_map_fst] at hkept

/-! ## Rows of statement lines -/

/-- Every element with the one that stands directly after it. -/
def withNext {α : Type} : List α → List (α × Option α)
  | [] => []
  | a :: rest => (a, rest.head?) :: withNext rest

/-- The content of the narrative, when that is what follows. -/
def narrativeOf (next : Option LexedField) : List Char :=
  ((next.filter (·.tag = "86")).map LexedField.content).getD []

/-- The statement lines of the fields, each with what follows it. -/
def statementLines (fields : List LexedField) : List (LexedField × Option LexedField) :=
  (withNext fields).filter (·.1.tag = "61")

theorem narrativeOf_narrative {next : LexedField} (h : next.tag = "86") :
    narrativeOf (some next) = next.content := by
  simp [narrativeOf, Option.filter, h]

theorem narrativeOf_other {next : LexedField} (h : next.tag ≠ "86") :
    narrativeOf (some next) = [] := by
  simp [narrativeOf, Option.filter, h]

/-- The loop makes a row of every statement line and of nothing else. -/
theorem extractRows_eq (lib : TextLibrary) (decimalSeparator : String) (fields : List LexedField) :
    extractRows lib decimalSeparator fields = (statementLines fields).map fun entry =>
      buildRow lib decimalSeparator entry.1 (stripChars (narrativeOf entry.2)) := by
  induction fields using extractRows.induct with
  | case1 => rfl
  | case2 field h =>
    simp [extractRows, statementLines, withNext, h]
    rfl
  | case3 field h => simp [extractRows, statementLines, withNext, h]
  | case4 field next rest h ih =>
    rw [extractRows, if_pos h, ih]
    simp [statementLines, withNext, h]
  | case5 field next rest h hnext ih =>
    -- the narrative is consumed, and it is no statement line
    have hother : next.tag ≠ "61" := by simp [hnext]
    rw [extractRows, if_neg h, if_pos hnext, ih]
    simp [statementLines, withNext, not_not.mp h, hother, narrativeOf_narrative hnext]
  | case6 field next rest h hnext ih =>
    rw [extractRows, if_neg h, if_neg hnext, ih]
    simp [statementLines, withNext, not_not.mp h, narrativeOf_other hnext]
    rfl

/-- The row of a statement line, with a narration. -/
structure RowOf (narration : List Char) (field : LexedField) (row : ParsedRow) : Prop where
  lineNo : row.lineNo = field.lineNo
  statementLine : row.rawFields.lookup "61" = some (String.ofList field.content)
  narrative : row.rawFields.lookup "86" = some (String.ofList narration)
  mapped : row.mapped = [] ∨ row.mapped.lookup "narration" = some (String.ofList narration)

/-- A row says what its statement line says. -/
theorem buildRow_rowOf (lib : TextLibrary) (decimalSeparator : String) (field : LexedField)
    (narration : List Char) :
    RowOf narration field (buildRow lib decimalSeparator field narration) := by
  unfold buildRow
  cases parseField61 field.content with
  | none => exact ⟨rfl, rfl, rfl, Or.inl rfl⟩
  | some parsed => exact ⟨rfl, rfl, rfl, Or.inr rfl⟩

/-! ## Failures -/

/-- A field whose content is cut into a balance. -/
def LexedField.IsBalance (field : LexedField) : Prop :=
  field.tag ∈ openingTags ∨ field.tag ∈ closingTags

/-- The header is read unless a balance is empty. -/
theorem headerField_cases (header : StatementHeader) (field : LexedField) :
    (∃ header', headerField header field = .ok header') ∧
        ¬ (field.IsBalance ∧ field.content = []) ∨
      headerField header field = .error (.raised (.indexError "string index out of range")) ∧
        field.IsBalance ∧ field.content = [] := by
  have hparse : (∃ b, parseBalance field.tag field.content = .ok b) ∧ field.content ≠ [] ∨
      parseBalance field.tag field.content =
          .error (.raised (.indexError "string index out of range")) ∧ field.content = [] := by
    cases field.content with
    | nil => exact Or.inr ⟨rfl, rfl⟩
    | cons mark rest => exact Or.inl ⟨⟨_, rfl⟩, List.cons_ne_nil _ _⟩
  unfold headerField LexedField.IsBalance
  by_cases h20 : field.tag = "20"
  · simp [h20, openingTags, closingTags]
  by_cases h25 : field.tag = "25"
  · simp [h25, openingTags, closingTags]
  by_cases h28 : field.tag = "28C"
  · simp [h28, openingTags, closingTags]
  simp only [h20, h25, h28, if_false]
  by_cases hopening : field.tag ∈ openingTags
  · obtain ⟨⟨b, hb⟩, hne⟩ | ⟨hb, hempty⟩ := hparse
    · simp [hopening, hb, hne, Except.map]
    · rw [if_pos hopening, hb]
      exact Or.inr ⟨rfl, Or.inl hopening, hempty⟩
  by_cases hclosing : field.tag ∈ closingTags
  · obtain ⟨⟨b, hb⟩, hne⟩ | ⟨hb, hempty⟩ := hparse
    · simp [hopening, hclosing, hb, hne, Except.map]
    · rw [if_neg hopening, if_pos hclosing, hb]
      exact Or.inr ⟨rfl, Or.inr hclosing, hempty⟩
  · simp [hopening, hclosing]

/-- The header fails at an empty balance and nowhere else. -/
theorem foldlM_headerField_cases (fields : List LexedField) (header : StatementHeader) :
    (∃ header', fields.foldlM headerField header = .ok header') ∧
        (∀ field ∈ fields, field.IsBalance → field.content ≠ []) ∨
      fields.foldlM headerField header =
          .error (.raised (.indexError "string index out of range")) ∧
        ∃ field ∈ fields, field.IsBalance ∧ field.content = [] := by
  induction fields generalizing header with
  | nil => exact Or.inl ⟨⟨header, rfl⟩, by simp⟩
  | cons field fields ih =>
    rw [List.foldlM_cons]
    obtain ⟨⟨next, hnext⟩, hfine⟩ | ⟨hraised, hempty⟩ := headerField_cases header field
    · rw [hnext]
      obtain ⟨hrest, hall⟩ | ⟨hrest, bad, hbad, hempty⟩ := ih next
      · refine Or.inl ⟨hrest, fun other hother hbalance => ?_⟩
        obtain rfl | hother := List.mem_cons.mp hother
        · exact fun hnil => hfine ⟨hbalance, hnil⟩
        · exact hall other hother hbalance
      · exact Or.inr ⟨hrest, bad, List.mem_cons_of_mem _ hbad, hempty⟩
    · rw [hraised]
      exact Or.inr ⟨rfl, field, List.mem_cons_self, hempty⟩

/-- The header of fields whose balances are not empty. -/
theorem extractHeader_ok {fields : List LexedField}
    (h : ∀ field ∈ fields, field.IsBalance → field.content ≠ []) :
    ∃ header, extractHeader fields = .ok header := by
  obtain ⟨hok, -⟩ | ⟨-, field, hfield, hbalance, hempty⟩ := foldlM_headerField_cases fields {}
  · exact hok
  · exact absurd hempty (h field hfield hbalance)

/-- No balance field of the fields is empty. -/
def BalancesFilled (fields : List LexedField) : Prop :=
  ∀ field ∈ fields, field.IsBalance → field.content ≠ []

/-- The parser on the fields of a text. -/
theorem parseWithHeader_of_lex (lib : TextLibrary) {text : String} {config : BankFormats}
    {format : Mt940Format} {fields : List LexedField} (hconfig : config.mt940 = some format)
    (hlex : lex text.toList = .ok fields) :
    parseWithHeader lib text config = (extractHeader fields).map fun header =>
      (header, extractRows lib format.decimalSeparator fields) := by
  simp only [parseWithHeader, hconfig, hlex]
  cases extractHeader fields <;> rfl

/-! ## A bank with MT940 statements -/

/-- What the library reads off the texts of the examples. -/
def statementLibrary : TextLibrary where
  strptime text format := if text = "260301" ∧ format = "%y%m%d" then some ⟨739676, 0⟩ else none
  zoneInfo _ := none
  decimal text := if text = "250.00" then .finite 250 else .invalid

def statementBank : BankFormats where
  bankCode := "SBI"
  timezone := "Asia/Kolkata"
  currencyDefault := "INR"
  supportedFormats := [.mt940]
  mt940 := some ⟨","⟩

/-- A statement line whose narrative begins with a blank. -/
def blankNarrative : String := ":61:2603010301C250,00NTRFPAY42\n:86: SALARY"

/-- A text loses no line to the lexer; and where no balance is empty, the parser returns a row for
each statement line, in order, whose narration is the narrative directly after it without
surrounding blanks, or empty. -/
theorem parse_lossless (lib : TextLibrary) (text : String) (fields : List LexedField)
    (config : BankFormats) (format : Mt940Format) (hlex : lex text.toList = .ok fields)
    (hconfig : config.mt940 = some format) :
    fields.flatMap LexedField.lines = (splitLines text.toList).filter (!isBlank ·) ∧
      (BalancesFilled fields → ∃ header rows, parseWithHeader lib text config = .ok (header, rows) ∧
        List.Forall₂ (fun entry row => RowOf (stripChars (narrativeOf entry.2)) entry.1 row)
          (statementLines fields) rows) := by
  refine ⟨lex_lines hlex, fun hfilled => ?_⟩
  obtain ⟨header, hheader⟩ := extractHeader_ok hfilled
  refine ⟨header, extractRows lib format.decimalSeparator fields, ?_, ?_⟩
  · rw [parseWithHeader_of_lex lib hconfig hlex, hheader]
    rfl
  · rw [extractRows_eq, List.forall₂_map_right_iff, List.forall₂_same]
    intro entry _
    exact buildRow_rowOf lib format.decimalSeparator entry.1 _

/-- The text with the blank, read. -/
def blankNarrativeFields : List LexedField :=
  [⟨"61", "2603010301C250,00NTRFPAY42".toList, 1⟩, ⟨"86", " SALARY".toList, 2⟩]

theorem blankNarrative_lexed : lex blankNarrative.toList = .ok blankNarrativeFields := by
  decide +kernel

theorem parse_lossless_blankNarrative :
    blankNarrativeFields.flatMap LexedField.lines =
        (splitLines blankNarrative.toList).filter (!isBlank ·) ∧
      (BalancesFilled blankNarrativeFields → ∃ header rows,
        parseWithHeader statementLibrary blankNarrative statementBank = .ok (header, rows) ∧
        List.Forall₂ (fun entry row => RowOf (stripChars (narrativeOf entry.2)) entry.1 row)
          (statementLines blankNarrativeFields) rows) :=
  parse_lossless statementLibrary blankNarrative blankNarrativeFields statementBank ⟨","⟩
    blankNarrative_lexed rfl

/-- The narration is not the content of the narrative as it stands. -/
theorem narrative_stripped :
    ¬ ∀ (lib : TextLibrary) (text : String) (fields : List LexedField) (config : BankFormats)
      (format : Mt940Format), lex text.toList = .ok fields → config.mt940 = some format →
      fields.flatMap LexedField.lines = (splitLines text.toList).filter (!isBlank ·) ∧
        ∃ header rows, parseWithHeader lib text config = .ok (header, rows) ∧
          List.Forall₂ (fun entry row => RowOf (narrativeOf entry.2) entry.1 row)
            (statementLines fields) rows := by
  intro h
  obtain ⟨-, header, rows, hparse, hrows⟩ := h statementLibrary blankNarrative blankNarrativeFields
    statementBank ⟨","⟩ blankNarrative_lexed rfl
  have hread : (parseWithHeader statementLibrary blankNarrative statementBank).map (·.2) =
      .ok [buildRow statementLibrary "," ⟨"61", "2603010301C250,00NTRFPAY42".toList, 1⟩
        "SALARY".toList] := by
    decide +kernel
  rw [hparse] at hread
  cases hread
  have hentries : statementLines blankNarrativeFields =
      [(⟨"61", "2603010301C250,00NTRFPAY42".toList, 1⟩,
        some ⟨"86", " SALARY".toList, 2⟩)] := by
    decide +kernel
  rw [hentries, List.forall₂_cons] at hrows
  exact absurd hrows.1.narrative (by decide +kernel)

/-- The parser fails in its own way exactly when no balance of the text is empty. -/
theorem parse_fails_own_iff (lib : TextLibrary) (text : String) (config : BankFormats) :
    ((∃ header rows, parseWithHeader lib text config = .ok (header, rows)) ∨
        ∃ message, parseWithHeader lib text config = .error (.refused message)) ↔
      (config.mt940.isSome = true → ∀ fields, lex text.toList = .ok fields →
        BalancesFilled fields) := by
  cases hconfig : config.mt940 with
  | none => simp [parseWithHeader, hconfig]
  | some format =>
    cases hlex : lex text.toList with
    | error message => simp [parseWithHeader, hconfig, hlex]
    | ok fields =>
      rw [parseWithHeader_of_lex lib hconfig hlex]
      simp only [Option.isSome_some, Except.ok.injEq, forall_eq', forall_const]
      obtain ⟨⟨header, hheader⟩, hfilled⟩ | ⟨hraised, field, hfield, hbalance, hempty⟩ :=
        foldlM_headerField_cases fields {}
      · rw [extractHeader, hheader]
        exact ⟨fun _ => hfilled, fun _ => Or.inl ⟨header, _, rfl⟩⟩
      · rw [extractHeader, hraised]
        constructor
        · rintro (⟨header, rows, hok⟩ | ⟨message, hrefused⟩)
          · cases hok
          · cases hrefused
        · exact fun hfilled => absurd hempty (hfilled field hfield hbalance)

/-- An opening balance with nothing after its tag. -/
theorem emptyBalance_raises :
    ¬ ∀ (lib : TextLibrary) (text : String) (config : BankFormats),
      (∃ header rows, parseWithHeader lib text config = .ok (header, rows)) ∨
        ∃ message, parseWithHeader lib text config = .error (.refused message) := by
  intro h
  have hraised : parseWithHeader statementLibrary ":20:STMT1\n:60F:" statementBank =
      .error (.raised (.indexError "string index out of range")) := by
    decide +kernel
  obtain ⟨header, rows, hok⟩ | ⟨message, hrefused⟩ :=
    h statementLibrary ":20:STMT1\n:60F:" statementBank
  · rw [hraised] at hok
    cases hok
  · rw [hraised] at hrefused
    cases hrefused

end Recon.Mt940
