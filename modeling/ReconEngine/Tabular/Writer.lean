import ReconEngine.Ingestion.Csv

/-!
# Writing CSV

The writer of the standard library puts quotes around a cell only where the reader would otherwise
misread it, and doubles the quotes within. Versions of the library differ in one character: the
later ones quote a carriage return, the earlier ones leave it as it is.

**The law** (`readRows_written`): the reader gives back the rows that were written, each cell as it
was, whatever the cells hold; for a writer that leaves carriage returns alone, where they hold none.
Cells with line breaks reach the reader in several lines, so the law is proved of a reader that may
be in the midst of a cell, one character after the other (`reads_step`, `reads_break`).

**What it does not establish.** Other dialects: the delimiter, the quote and the end of a line are
those of the default one. A reader with a limit on the size of a field reads longer ones as an
error.
-/

set_option autoImplicit false

namespace Recon.Csv

/-! ## The writer -/

/-- A dialect that quotes as little as it can, with lines that end in a line feed. -/
structure Writer where
  delimiter : Char := ','
  /-- Whether this version of the library quotes a carriage return. -/
  quotesReturns : Bool

/-- The body of a cell within quotes. -/
def doubled : List Char → List Char
  | [] => []
  | c :: rest => if c = '"' then '"' :: '"' :: doubled rest else c :: doubled rest

def quoted (cell : List Char) : List Char := '"' :: (doubled cell ++ ['"'])

namespace Writer

variable (w : Writer)

/-- A character that a cell is quoted for. -/
def special (c : Char) : Bool :=
  c = w.delimiter || c = '"' || c = '\n' || (w.quotesReturns && c = '\r')

/-- `join_append`, for one cell. -/
def cellText (cell : List Char) : List Char := if cell.any w.special then quoted cell else cell

def cellsText : List (List Char) → List Char
  | [] => []
  | [cell] => w.cellText cell
  | cell :: rest => w.cellText cell ++ w.delimiter :: cellsText rest

/-- `writerow`: a row of one empty cell is quoted, lest it be read as a row of none. -/
def rowText (row : List String) : List Char :=
  if row = [""] then ['"', '"', '\n'] else w.cellsText (row.map (·.toList)) ++ ['\n']

def write (rows : List (List String)) : String := String.ofList (rows.flatMap w.rowText)

/-- The delimiter can be told from quotes and line breaks. -/
def Sane : Prop := w.delimiter ≠ '"' ∧ w.delimiter ≠ '\n' ∧ w.delimiter ≠ '\r'

/-- A cell that the reader takes: within the limit of a field, and with no carriage return that
would be written bare. -/
def Fits (cell : String) : Prop :=
  cell.toList.length ≤ fieldLimit ∧ (w.quotesReturns = false → '\r' ∉ cell.toList)

end Writer

/-! ## A reader in the midst of a text -/

/-- What is read of a text from a state of the reader. -/
def reads (delimiter : Char) (r : Reader) (text : List Char) :
    List (List String) × Option String :=
  readRowsFrom delimiter r (fileLinesFrom [] text)

/-- The characters of an unfinished line stand before the first line of the rest. -/
theorem fileLinesFrom_pending {text : List Char} (h : text ≠ []) :
    ∃ first others, ∀ line, fileLinesFrom line text = (line ++ first) :: others := by
  induction text with
  | nil => exact absurd rfl h
  | cons c rest ih =>
    by_cases hpair : c = '\r' ∧ rest.head? = some '\n'
    · obtain ⟨rfl, hhead⟩ := hpair
      obtain ⟨tail, rfl⟩ := List.head?_eq_some_iff.mp hhead
      exact ⟨['\r', '\n'], fileLinesFrom [] tail, fun line => by simp [fileLinesFrom]⟩
    · have hstep : ∀ line, fileLinesFrom line (c :: rest) =
          if c = '\n' ∨ c = '\r' then (line ++ [c]) :: fileLinesFrom [] rest
          else fileLinesFrom (line ++ [c]) rest := by
        intro line
        rw [fileLinesFrom]
        intro tail hc htail
        exact hpair ⟨hc, by rw [htail]; rfl⟩
      by_cases hbreak : c = '\n' ∨ c = '\r'
      · exact ⟨[c], fileLinesFrom [] rest, fun line => by rw [hstep, if_pos hbreak]⟩
      · cases rest with
        | nil => exact ⟨[c], [], fun line => by rw [hstep, if_neg hbreak]; simp [fileLinesFrom]⟩
        | cons d more =>
          obtain ⟨first, others, hfirst⟩ := ih (List.cons_ne_nil d more)
          refine ⟨c :: first, others, fun line => ?_⟩
          rw [hstep, if_neg hbreak, hfirst, List.append_assoc]
          rfl

/-- A line may as well be read from the state that its beginning leads to. -/
theorem readRowsFrom_append {delimiter : Char} {r next : Reader} {line : List Char}
    (h : line.foldlM (fun (r : Reader) c => r.processChar delimiter c) r = .ok next)
    (more : List Char) (lines : List (List Char)) :
    readRowsFrom delimiter r ((line ++ more) :: lines) =
      readRowsFrom delimiter next (more :: lines) := by
  have hline : r.processLine delimiter (line ++ more) = next.processLine delimiter more := by
    unfold Reader.processLine
    rw [List.foldlM_append, h]
    rfl
  simp only [readRowsFrom, hline]

section

variable {delimiter : Char} {r next : Reader} {c : Char} {text : List Char}

/-- A character within a line takes the reader to its next state. -/
theorem reads_step (hn : c ≠ '\n') (hr : c ≠ '\r') (h : r.processChar delimiter c = .ok next)
    (htext : text ≠ []) : reads delimiter r (c :: text) = reads delimiter next text := by
  obtain ⟨first, others, hfirst⟩ := fileLinesFrom_pending htext
  have hlines : fileLinesFrom [] (c :: text) = ([c] ++ first) :: others := by
    rw [fileLinesFrom, if_neg (by simp [hn, hr]), hfirst]
    · rfl
    · intro tail hc
      exact absurd hc hr
  unfold reads
  rw [hlines, hfirst]
  apply readRowsFrom_append
  simp [List.foldlM, h, bind, Except.bind, pure, Except.pure]

/-- A line break within quotes belongs to the cell. -/
theorem reads_break (hc : c = '\n' ∨ c = '\r') (hstate : r.state = .inQuotedField)
    (hroom : r.field.length < fieldLimit) (htext : text ≠ []) :
    reads delimiter r (c :: text) =
      reads delimiter { r with field := r.field ++ [c] } text := by
  have hquote : c ≠ '"' := by rcases hc with rfl | rfl <;> decide
  have hchar : r.processChar delimiter c = .ok { r with field := r.field ++ [c] } := by
    simp [Reader.processChar, Reader.add, hstate, hquote, Nat.not_le.mpr hroom]
  have hfold : [c].foldlM (fun (r : Reader) c => r.processChar delimiter c) r =
      .ok { r with field := r.field ++ [c] } := by
    simp [List.foldlM, hchar, bind, Except.bind, pure, Except.pure]
  by_cases hpair : c = '\r' ∧ text.head? = some '\n'
  · -- The pair ends one line, which is read from behind its first character.
    obtain ⟨rfl, hhead⟩ := hpair
    obtain ⟨tail, rfl⟩ := List.head?_eq_some_iff.mp hhead
    have hpairLine : fileLinesFrom [] ('\r' :: '\n' :: tail) =
        (['\r'] ++ ['\n']) :: fileLinesFrom [] tail := by simp [fileLinesFrom]
    have hrest : fileLinesFrom [] ('\n' :: tail) = ['\n'] :: fileLinesFrom [] tail := by
      simp [fileLinesFrom]
    unfold reads
    rw [hpairLine, hrest]
    exact readRowsFrom_append hfold ['\n'] (fileLinesFrom [] tail)
  · have hlines : fileLinesFrom [] (c :: text) = [c] :: fileLinesFrom [] text := by
      rw [fileLinesFrom, if_pos hc]
      · rfl
      · intro tail hcr htail
        exact hpair ⟨hcr, by rw [htail]; rfl⟩
    have hline : r.processLine delimiter [c] = .ok { r with field := r.field ++ [c] } := by
      unfold Reader.processLine
      rw [hfold]
      simp [Except.map, Reader.endLine, hstate]
    unfold reads
    rw [hlines, readRowsFrom, hline]
    simp [hstate]

/-- A line feed behind a cell ends the row. -/
theorem reads_end (hstate : r.state = .startField ∨ r.state = .inField ∨
      r.state = .quoteInQuotedField) (hn : '\n' ≠ delimiter) :
    reads delimiter r ('\n' :: text) =
      ((r.fields ++ [r.field]).map String.ofList :: (reads delimiter {} text).1,
        (reads delimiter {} text).2) := by
  have hlines : fileLinesFrom [] ('\n' :: text) = ['\n'] :: fileLinesFrom [] text := by
    simp [fileLinesFrom]
  have hchar : r.processChar delimiter '\n' = .ok (r.save .eatCrnl) := by
    rcases hstate with h | h | h <;> simp [Reader.processChar, Reader.beginField, h, hn]
  have hline : r.processLine delimiter ['\n'] =
      .ok { r.save .eatCrnl with state := .startRecord } := by
    unfold Reader.processLine
    simp [List.foldlM, hchar, bind, Except.bind, pure, Except.pure, Except.map, Reader.endLine,
      Reader.save]
  unfold reads
  rw [hlines, readRowsFrom, hline]
  simp [Reader.save]

/-- A line with nothing on it is a row of no cells. -/
theorem reads_blank :
    reads delimiter {} ('\n' :: text) =
      ([] :: (reads delimiter {} text).1, (reads delimiter {} text).2) := by
  have hlines : fileLinesFrom [] ('\n' :: text) = ['\n'] :: fileLinesFrom [] text := by
    simp [fileLinesFrom]
  have hline : ({} : Reader).processLine delimiter ['\n'] = .ok {} := by
    unfold Reader.processLine
    simp [List.foldlM, Reader.processChar, bind, Except.bind, pure, Except.pure, Except.map,
      Reader.endLine]
  unfold reads
  rw [hlines, readRowsFrom, hline]
  simp

end

/-! ## Reading back what was written -/

section

variable {w : Writer}

/-- A character of a cell within quotes, other than the quote itself. -/
theorem reads_inside {r : Reader} {c : Char} {text : List Char} (hc : c ≠ '"')
    (hstate : r.state = .inQuotedField) (hroom : r.field.length < fieldLimit) (htext : text ≠ []) :
    reads w.delimiter r (c :: text) =
      reads w.delimiter { r with field := r.field ++ [c] } text := by
  by_cases hbreak : c = '\n' ∨ c = '\r'
  · exact reads_break hbreak hstate hroom htext
  · have hchar : r.processChar w.delimiter c =
        .ok { r with state := .inQuotedField, field := r.field ++ [c] } := by
      simp [Reader.processChar, Reader.add, hstate, hc, Nat.not_le.mpr hroom]
    have hstep := reads_step (fun h => hbreak (.inl h)) (fun h => hbreak (.inr h)) hchar htext
    rw [hstep, ← hstate]

/-- The body of a quoted cell and its closing quote. -/
theorem reads_doubled {cell : List Char} {r : Reader} {text : List Char}
    (hstate : r.state = .inQuotedField) (hroom : r.field.length + cell.length ≤ fieldLimit)
    (htext : text ≠ []) :
    reads w.delimiter r (doubled cell ++ '"' :: text) =
      reads w.delimiter
        { r with state := .quoteInQuotedField, field := r.field ++ cell } text := by
  induction cell generalizing r with
  | nil =>
    have hchar : r.processChar w.delimiter '"' = .ok { r with state := .quoteInQuotedField } := by
      simp [Reader.processChar, hstate]
    simpa [doubled] using reads_step (by decide) (by decide) hchar htext
  | cons c rest ih =>
    have hlength : r.field.length < fieldLimit := by
      rw [List.length_cons] at hroom
      omega
    have hnext : (r.field ++ [c]).length + rest.length ≤ fieldLimit := by
      rw [List.length_append, List.length_singleton]
      rw [List.length_cons] at hroom
      omega
    have hbody : doubled rest ++ '"' :: text ≠ [] := by simp
    by_cases hc : c = '"'
    · -- The quote is written twice: the first leaves the cell and the second comes back.
      subst hc
      have hleave : r.processChar w.delimiter '"' =
          .ok { r with state := .quoteInQuotedField } := by
        simp [Reader.processChar, hstate]
      have hback : ({ r with state := .quoteInQuotedField } : Reader).processChar w.delimiter '"' =
          .ok { r with state := .inQuotedField, field := r.field ++ ['"'] } := by
        simp [Reader.processChar, Reader.add, Nat.not_le.mpr hlength]
      rw [doubled, if_pos rfl, List.cons_append, List.cons_append,
        reads_step (by decide) (by decide) hleave (List.cons_ne_nil _ _),
        reads_step (by decide) (by decide) hback hbody, ih rfl hnext]
      simp
    · rw [doubled, if_neg hc, List.cons_append, reads_inside hc hstate hlength hbody,
        ih (r := { r with field := r.field ++ [c] }) hstate hnext]
      simp

/-- Characters that need no quotes, once a cell has begun. -/
theorem reads_bare {cell : List Char} {r : Reader} {text : List Char}
    (hstate : r.state = .inField) (hroom : r.field.length + cell.length ≤ fieldLimit)
    (hbare : ∀ c ∈ cell, w.special c = false ∧ c ≠ '\r') (htext : text ≠ []) :
    reads w.delimiter r (cell ++ text) =
      reads w.delimiter { r with field := r.field ++ cell } text := by
  induction cell generalizing r with
  | nil => simp
  | cons c rest ih =>
    obtain ⟨hspecial, hr⟩ := hbare c List.mem_cons_self
    have hplain : c ≠ w.delimiter ∧ c ≠ '"' ∧ c ≠ '\n' := by
      simp only [Writer.special, Bool.or_eq_false_iff, decide_eq_false_iff_not] at hspecial
      exact ⟨hspecial.1.1.1, hspecial.1.1.2, hspecial.1.2⟩
    have hlength : r.field.length < fieldLimit := by
      rw [List.length_cons] at hroom
      omega
    have hchar : r.processChar w.delimiter c =
        .ok { r with state := .inField, field := r.field ++ [c] } := by
      simp [Reader.processChar, Reader.add, hstate, hplain.1, hplain.2.2, hr,
        Nat.not_le.mpr hlength]
    have hnext : (r.field ++ [c]).length + rest.length ≤ fieldLimit := by
      rw [List.length_append, List.length_singleton]
      rw [List.length_cons] at hroom
      omega
    rw [List.cons_append, reads_step hplain.2.2 hr hchar (by simp [htext]),
      ih rfl hnext fun d hd => hbare d (List.mem_cons_of_mem c hd)]
    simp [hstate]

/-- Where a cell begins. -/
def Reader.AtCell (r : Reader) : Prop :=
  r.field = [] ∧ (r.state = .startRecord ∨ r.state = .startField)

/-- Where a cell with these characters has been read, and only its end is missing. -/
def Reader.Behind (r next : Reader) (cell : List Char) : Prop :=
  next.fields = r.fields ∧ next.field = cell ∧
    (next.state = .inField ∨ next.state = .quoteInQuotedField ∨ (cell = [] ∧ next = r))

/-- A cell as it was written, between quotes or not. -/
theorem reads_cellText {r : Reader} {cell : String} {text : List Char} (hr : r.AtCell)
    (hfits : w.Fits cell) (htext : text ≠ []) :
    ∃ next, r.Behind next cell.toList ∧
      reads w.delimiter r (w.cellText cell.toList ++ text) = reads w.delimiter next text := by
  obtain ⟨hfield, hstate⟩ := hr
  obtain ⟨hlimit, hreturns⟩ := hfits
  unfold Writer.cellText
  by_cases hquote : cell.toList.any w.special = true
  · have hopen : r.processChar w.delimiter '"' = .ok { r with state := .inQuotedField } := by
      rcases hstate with h | h <;> simp [Reader.processChar, Reader.beginField, h]
    refine ⟨{ r with state := .quoteInQuotedField, field := cell.toList }, ?_, ?_⟩
    · exact ⟨rfl, rfl, .inr (.inl rfl)⟩
    · have hbody := reads_doubled (w := w) (r := { r with state := .inQuotedField }) rfl
        (by simpa [hfield] using hlimit) htext
      rw [if_pos hquote, quoted, List.cons_append, List.append_assoc, List.singleton_append,
        reads_step (by decide) (by decide) hopen (by simp), hbody]
      simp [hfield]
  · have hbare : ∀ c ∈ cell.toList, w.special c = false ∧ c ≠ '\r' := by
      intro c hc
      have hspecial : w.special c = false := by
        cases h : w.special c with
        | false => rfl
        | true => exact absurd (List.any_eq_true.mpr ⟨c, hc, h⟩) hquote
      refine ⟨hspecial, fun hcr => ?_⟩
      cases hq : w.quotesReturns with
      | true => simp [Writer.special, hcr, hq] at hspecial
      | false => exact hreturns hq (hcr ▸ hc)
    rw [if_neg hquote]
    cases hcell : cell.toList with
    | nil => exact ⟨r, ⟨rfl, hfield, .inr (.inr ⟨rfl, rfl⟩)⟩, rfl⟩
    | cons c rest =>
      rw [hcell] at hbare hlimit
      obtain ⟨hspecial, hcr⟩ := hbare c List.mem_cons_self
      simp only [Writer.special, Bool.or_eq_false_iff, decide_eq_false_iff_not] at hspecial
      have hchar : r.processChar w.delimiter c =
          .ok { r with state := .inField, field := [c] } := by
        rcases hstate with h | h <;>
          simp [Reader.processChar, Reader.beginField, Reader.add, h, hspecial.1.1, hspecial.1.2,
            hcr, hfield, fieldLimit]
      have hroom : [c].length + rest.length ≤ fieldLimit := by
        rw [List.length_cons] at hlimit
        rw [List.length_singleton]
        omega
      refine ⟨{ r with state := .inField, field := c :: rest }, ⟨rfl, rfl, .inl rfl⟩, ?_⟩
      rw [List.cons_append, reads_step hspecial.1.2 hcr hchar (by simp [htext]),
        reads_bare (r := { r with state := .inField, field := [c] }) rfl hroom
          (fun d hd => hbare d (List.mem_cons_of_mem c hd)) htext]
      rfl

variable (hsane : w.Sane)

include hsane

/-- A delimiter behind a cell begins the next one. -/
theorem reads_delimiter {r next : Reader} {cell text : List Char} (hr : r.AtCell)
    (hnext : r.Behind next cell) (htext : text ≠ []) :
    reads w.delimiter next (w.delimiter :: text) =
      reads w.delimiter ⟨.startField, [], r.fields ++ [cell]⟩ text := by
  obtain ⟨hquote, hn, hcr⟩ := hsane
  obtain ⟨hfields, hfield, hstate⟩ := hnext
  have hchar : next.processChar w.delimiter w.delimiter = .ok (next.save .startField) := by
    rcases hstate with h | h | ⟨-, rfl⟩
    · simp [Reader.processChar, h, hn, hcr]
    · simp [Reader.processChar, h, hquote]
    · rcases hr.2 with h | h <;> simp [Reader.processChar, Reader.beginField, h, hquote, hn, hcr]
  rw [reads_step hn hcr hchar htext, Reader.save, hfields, hfield]

/-- The cells of a row that is not a single empty cell, up to the end of the line. -/
theorem reads_cellsText {cells : List String} {r : Reader} {text : List Char} (hr : r.AtCell)
    (hcells : cells ≠ []) (hfirst : r.state = .startField ∨ cells ≠ [""])
    (hfits : ∀ cell ∈ cells, w.Fits cell) :
    reads w.delimiter r (w.cellsText (cells.map (·.toList)) ++ '\n' :: text) =
      ((r.fields.map String.ofList ++ cells) :: (reads w.delimiter {} text).1,
        (reads w.delimiter {} text).2) := by
  induction cells generalizing r with
  | nil => exact absurd rfl hcells
  | cons cell rest ih =>
    have hcellFits : w.Fits cell := hfits cell List.mem_cons_self
    cases rest with
    | nil =>
      obtain ⟨next, hnext, hreads⟩ := reads_cellText hr hcellFits (List.cons_ne_nil '\n' text)
      have hended : next.state = .startField ∨ next.state = .inField ∨
          next.state = .quoteInQuotedField := by
        obtain ⟨-, -, h | h | ⟨hempty, rfl⟩⟩ := hnext
        · exact .inr (.inl h)
        · exact .inr (.inr h)
        · have hcell : cell = "" := String.toList_eq_nil_iff.mp hempty
          exact .inl (hfirst.resolve_right fun h => h (by rw [hcell]))
      rw [List.map_cons, List.map_nil, Writer.cellsText, hreads,
        reads_end hended (Ne.symm hsane.2.1), hnext.1, hnext.2.1]
      simp
    | cons second others =>
      have hmore : w.cellsText ((second :: others).map (·.toList)) ++ '\n' :: text ≠ [] := by simp
      obtain ⟨next, hnext, hreads⟩ := reads_cellText hr hcellFits
        (List.cons_ne_nil w.delimiter
          (w.cellsText ((second :: others).map (·.toList)) ++ '\n' :: text))
      have hrest := ih (r := ⟨.startField, [], r.fields ++ [cell.toList]⟩) ⟨rfl, .inr rfl⟩
        (List.cons_ne_nil second others) (.inl rfl)
        fun c hc => hfits c (List.mem_cons_of_mem cell hc)
      have htext : w.cellsText ((cell :: second :: others).map (·.toList)) ++ '\n' :: text =
          w.cellText cell.toList ++ (w.delimiter ::
            (w.cellsText ((second :: others).map (·.toList)) ++ '\n' :: text)) := by
        simp [Writer.cellsText]
      rw [htext, hreads, reads_delimiter hsane hr hnext hmore, hrest]
      simp

/-- One row. -/
theorem reads_rowText {row : List String} {text : List Char} (hfits : ∀ cell ∈ row, w.Fits cell) :
    reads w.delimiter {} (w.rowText row ++ text) =
      (row :: (reads w.delimiter {} text).1, (reads w.delimiter {} text).2) := by
  unfold Writer.rowText
  by_cases hempty : row = [""]
  · have hopen : ({} : Reader).processChar w.delimiter '"' = .ok { state := .inQuotedField } := by
      simp [Reader.processChar, Reader.beginField]
    have hclose : ({ state := .inQuotedField } : Reader).processChar w.delimiter '"' =
        .ok { state := .quoteInQuotedField } := by
      simp [Reader.processChar]
    rw [if_pos hempty, hempty]
    show reads w.delimiter {} ('"' :: '"' :: '\n' :: text) = _
    rw [reads_step (by decide) (by decide) hopen (List.cons_ne_nil _ _),
      reads_step (by decide) (by decide) hclose (List.cons_ne_nil _ _),
      reads_end (.inr (.inr rfl)) (Ne.symm hsane.2.1)]
    simp
  · rw [if_neg hempty]
    cases row with
    | nil => exact reads_blank
    | cons cell rest =>
      have hstart : ({} : Reader).AtCell := ⟨rfl, .inl rfl⟩
      have hrow : reads w.delimiter {} (w.cellsText ((cell :: rest).map (·.toList)) ++
          '\n' :: text) = _ :=
        reads_cellsText hsane hstart (List.cons_ne_nil cell rest) (.inr hempty) hfits
      simpa using hrow

/-- **The law of the writer.** Every row is read back, and nothing else. -/
theorem readRows_written {rows : List (List String)}
    (hfits : ∀ row ∈ rows, ∀ cell ∈ row, w.Fits cell) :
    readRows w.delimiter (w.write rows) = (rows, none) := by
  have hreads : ∀ rows : List (List String), (∀ row ∈ rows, ∀ cell ∈ row, w.Fits cell) →
      reads w.delimiter {} (rows.flatMap w.rowText) = (rows, none) := by
    intro rows hfits
    induction rows with
    | nil => simp [reads, fileLinesFrom, readRowsFrom]
    | cons row rest ih =>
      rw [List.flatMap_cons, reads_rowText hsane (hfits row List.mem_cons_self),
        ih fun other hother => hfits other (List.mem_cons_of_mem row hother)]
  have htext : (w.write rows).toList = rows.flatMap w.rowText := by simp [Writer.write]
  unfold readRows
  rw [htext]
  exact hreads rows hfits

end

end Recon.Csv
