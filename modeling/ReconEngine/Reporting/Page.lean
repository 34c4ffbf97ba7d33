import ReconEngine.Reporting.Models
import ReconEngine.Tabular.Markup

/-!
# Reports as pages

A report is rendered as a page whose values are names, narrations and amounts from anywhere; every
one of them is escaped.

**The law** (`renderHtml_tokens`): a browser reads the page as the tags of the layout, each followed
by the value that belongs there. The tags follow from the layout of the report alone
(`segments_tags`): how many entries, columns and rows it has, which cells are numbers, and the
verdict. So no name or narration adds markup.

**What it does not establish.** That the page looks right: styles are text of the layout. A browser
is taken to read tags, texts and references as `Tabular.Markup` does, and nothing is said of
scripts, of which the layout has none.
-/

set_option autoImplicit false

namespace Recon

/-! ## Pages -/

/-- `html.escape`. -/
def htmlEscape (value : String) : String := String.ofList (Markup.escape value.toList)

def reportStyle : String :=
  "body\x7bfont:14px/1.5 system-ui,-apple-system,Segoe UI,sans-serif;margin:2rem auto;" ++
    "max-width:960px;color:#1a1a1a;padding:0 1rem\x7d" ++
    "h1\x7bfont-size:1.5rem;margin-bottom:.2rem\x7dh2\x7bfont-size:1.1rem;margin-top:2rem\x7d" ++
    ".meta\x7bcolor:#555;font-size:.85rem\x7d" ++
    "dl\x7bdisplay:grid;grid-template-columns:max-content 1fr;gap:.25rem 1.5rem\x7d" ++
    "dt\x7bcolor:#555\x7ddd\x7bmargin:0;font-weight:600\x7d" ++
    "table\x7bborder-collapse:collapse;width:100%;margin-top:.5rem\x7d" ++
    "th,td\x7bborder:1px solid #d0d0d0;padding:.35rem .6rem;text-align:left\x7d" ++
    "th\x7bbackground:#f3f3f3\x7dtd.num\x7btext-align:right;font-variant-numeric:tabular-nums\x7d" ++
    ".pass\x7bcolor:#0a6b2d\x7d.fail\x7bcolor:#b00020\x7d" ++
    ".verdict\x7bfont-size:1.2rem;font-weight:700\x7d" ++
    "@media print\x7bbody\x7bmargin:0\x7d\x7d"

/-- `_html_cell`. -/
def htmlCell (value : Cell) : String :=
  "<td class=\"" ++ (if value.numeric then "num" else "") ++ "\">" ++ htmlEscape value.text ++
    "</td>"

/-- `_html_table`. -/
def htmlTable (table : ReportTable) : String :=
  let head := String.join (table.columns.map fun c => "<th>" ++ htmlEscape c ++ "</th>")
  let body := table.rows.map fun row => "<tr>" ++ String.join (row.map htmlCell) ++ "</tr>"
  let rows :=
    if String.join body = "" then
      "<tr>" ++ "<td colspan=\"" ++ toString table.columns.length ++ "\">" ++ "no rows" ++ "</td>" ++
        "</tr>"
    else String.join body
  "<h2>" ++ htmlEscape table.name ++ "</h2>" ++ "<table>" ++ "<thead>" ++ "<tr>" ++ head ++
    "</tr>" ++ "</thead>" ++ "<tbody>" ++ rows ++ "</tbody>" ++ "</table>"

namespace Report

variable (report : Report)

/-- The parameters on one line. -/
def parameterLine : String :=
  ", ".intercalate (report.parameters.map fun entry => entry.1 ++ ": " ++ entry.2.text)

def verdictClass (verdict : String) : String := if verdict = "PASS" then "pass" else "fail"

/-- The result, where the report has one. -/
def verdictParts : List String :=
  match report.shownVerdict with
  | some verdict =>
    ["<p class=\"verdict " ++ verdictClass verdict ++ "\">" ++ "Result: " ++ htmlEscape verdict ++
      "</p>"]
  | none => []

def summaryParts : List String :=
  if report.summary = [] then []
  else
    ["<h2>" ++ "Summary" ++ "</h2>" ++ "<dl>" ++
      String.join (report.summary.map fun entry =>
        "<dt>" ++ htmlEscape entry.1 ++ "</dt>" ++ "<dd>" ++ htmlEscape entry.2.text ++ "</dd>") ++
      "</dl>"]

def noteParts : List String :=
  if report.notes = [] then []
  else
    ["<h2>" ++ "Notes" ++ "</h2>" ++ "<ul>" ++
      String.join (report.notes.map fun note => "<li>" ++ htmlEscape note ++ "</li>") ++ "</ul>"]

/-- The parts before the result. -/
def openingParts : List String :=
  ["<!doctype html>" ++ "<html lang=en>" ++ "<head>" ++ "<meta charset=utf-8>",
    "<title>" ++ htmlEscape report.title ++ "</title>" ++ "<style>" ++ reportStyle ++ "</style>" ++
      "</head>" ++ "<body>",
    "<h1>" ++ htmlEscape report.title ++ "</h1>",
    "<p class=\"meta\">" ++ "Generated " ++ htmlEscape report.generatedAt ++ " · " ++
      htmlEscape report.parameterLine ++ "</p>"]

def renderHtml : String :=
  String.join (report.openingParts ++ report.verdictParts ++ report.summaryParts ++
    report.tables.map htmlTable ++ report.noteParts ++ ["</body>" ++ "</html>"])

end Report

/-! ## The segments of a page -/

open Markup (Segment)

def tagged (tag : String) (text : String) : Segment := ⟨tag.toList, text.toList⟩

/-- What a text is written as between a tag and its end. -/
def element (tag text : String) : List Segment := [tagged tag text, tagged ("/" ++ tag) ""]

def cellTag (numeric : Bool) : String := "td class=\"" ++ (if numeric then "num" else "") ++ "\""

def cellSegments (value : Cell) : List Segment :=
  [tagged (cellTag value.numeric) value.text, tagged "/td" ""]

def rowSegments (row : List Cell) : List Segment :=
  tagged "tr" "" :: (row.flatMap cellSegments ++ [tagged "/tr" ""])

/-- The rows, or the one that says there are none. -/
def bodySegments (table : ReportTable) : List Segment :=
  if table.rows = [] then
    [tagged "tr" "", tagged ("td colspan=\"" ++ toString table.columns.length ++ "\"") "no rows",
      tagged "/td" "", tagged "/tr" ""]
  else table.rows.flatMap rowSegments

def tableSegments (table : ReportTable) : List Segment :=
  element "h2" table.name ++ [tagged "table" "", tagged "thead" "", tagged "tr" ""] ++
    table.columns.flatMap (element "th") ++
    [tagged "/tr" "", tagged "/thead" "", tagged "tbody" ""] ++ bodySegments table ++
    [tagged "/tbody" "", tagged "/table" ""]

namespace Report

variable (report : Report)

def verdictSegments : List Segment :=
  match report.shownVerdict with
  | some verdict =>
    [tagged ("p class=\"verdict " ++ verdictClass verdict ++ "\"") ("Result: " ++ verdict),
      tagged "/p" ""]
  | none => []

def summarySegments : List Segment :=
  if report.summary = [] then []
  else
    element "h2" "Summary" ++ [tagged "dl" ""] ++
      report.summary.flatMap (fun entry => element "dt" entry.1 ++ element "dd" entry.2.text) ++
      [tagged "/dl" ""]

def noteSegments : List Segment :=
  if report.notes = [] then []
  else
    element "h2" "Notes" ++ [tagged "ul" ""] ++ report.notes.flatMap (element "li") ++
      [tagged "/ul" ""]

def openingSegments : List Segment :=
  [tagged "!doctype html" "", tagged "html lang=en" "", tagged "head" "",
      tagged "meta charset=utf-8" ""] ++
    (element "title" report.title ++ element "style" reportStyle ++
      [tagged "/head" "", tagged "body" ""]) ++
    element "h1" report.title ++
    [tagged "p class=\"meta\""
        ("Generated " ++ report.generatedAt ++ " · " ++ report.parameterLine), tagged "/p" ""]

def segments : List Segment :=
  report.openingSegments ++ report.verdictSegments ++ report.summarySegments ++
    report.tables.flatMap tableSegments ++ report.noteSegments ++
    [tagged "/body" "", tagged "/html" ""]

end Report

/-! ## The page is its segments -/

/-- The text of a list of segments. -/
def written (segments : List Segment) : List Char := segments.flatMap Segment.write

@[simp] theorem written_nil : written [] = [] := rfl

@[simp] theorem written_append (first rest : List Segment) :
    written (first ++ rest) = written first ++ written rest := List.flatMap_append

@[simp] theorem written_cons (segment : Segment) (rest : List Segment) :
    written (segment :: rest) = segment.write ++ written rest := rfl

theorem written_flatMap {α : Type} (items : List α) (segments : α → List Segment) :
    written (items.flatMap segments) = items.flatMap fun item => written (segments item) :=
  List.flatMap_assoc

/-- Escaping goes character by character. -/
theorem htmlEscape_append (first rest : String) :
    htmlEscape (first ++ rest) = htmlEscape first ++ htmlEscape rest := by
  simp [htmlEscape, Markup.escape]

/-- A segment is a tag and the text behind it, escaped. -/
@[simp] theorem tagged_write (tag text : String) :
    (tagged tag text).write = '<' :: (tag.toList ++ '>' :: (htmlEscape text).toList) := by
  simp [tagged, Segment.write, htmlEscape]

theorem htmlEscape_empty : htmlEscape "" = "" := rfl

/-- A text without the five characters is written as it is. -/
theorem htmlEscape_plain {chars : List Char} (h : Markup.escape chars = chars) :
    htmlEscape (String.ofList chars) = String.ofList chars := by
  rw [htmlEscape, String.toList_ofList, h]

theorem htmlEscape_style : htmlEscape reportStyle = reportStyle := by
  unfold reportStyle
  simp only [htmlEscape_append]
  repeat' apply congrArg₂
  all_goals exact htmlEscape_plain (by decide +kernel)

/-- A cell is written as its segments. -/
theorem htmlCell_written (value : Cell) :
    (htmlCell value).toList = written (cellSegments value) := by
  simp [htmlCell, cellSegments, cellTag, htmlEscape_empty]

theorem htmlRow_written (row : List Cell) :
    ("<tr>" ++ String.join (row.map htmlCell) ++ "</tr>").toList = written (rowSegments row) := by
  simp [rowSegments, htmlEscape_empty, written_flatMap, String.toList_join, List.flatMap_map,
    htmlCell_written]

/-- A table has no text for its rows exactly when it has no rows. -/
theorem htmlRows_empty (rows : List (List Cell)) :
    String.join (rows.map fun row => "<tr>" ++ String.join (row.map htmlCell) ++ "</tr>") = "" ↔
      rows = [] := by
  rw [← String.toList_eq_nil_iff]
  cases rows with
  | nil => simp
  | cons row rest => simp [String.toList_join]

theorem htmlTable_written (table : ReportTable) :
    (htmlTable table).toList = written (tableSegments table) := by
  have hhead : (String.join (table.columns.map fun c => "<th>" ++ htmlEscape c ++ "</th>")).toList =
      written (table.columns.flatMap (element "th")) := by
    simp [String.toList_join, List.flatMap_map, written_flatMap, element, htmlEscape_empty]
  have hnoRows : htmlEscape "no rows" = "no rows" := htmlEscape_plain (by decide)
  unfold htmlTable tableSegments bodySegments
  simp only [htmlRows_empty]
  by_cases hrows : table.rows = []
  · simp [hrows, hhead, element, htmlEscape_empty, hnoRows]
  · have hbody : (String.join (table.rows.map fun row =>
        "<tr>" ++ String.join (row.map htmlCell) ++ "</tr>")).toList =
          written (table.rows.flatMap rowSegments) := by
      rw [String.toList_join, List.flatMap_map, written_flatMap]
      exact List.flatMap_congr fun row _ => htmlRow_written row
    rw [if_neg hrows, if_neg hrows]
    simp only [String.toList_append, hhead, hbody, written_append]
    simp [element, htmlEscape_empty]

/-- The text of the parts that a page is joined from. -/
def joined (parts : List String) : List Char := parts.flatMap (·.toList)

theorem opening_written (report : Report) :
    joined report.openingParts = written report.openingSegments := by
  have hgenerated : htmlEscape "Generated " = "Generated " := htmlEscape_plain (by decide)
  have hdot : htmlEscape " · " = " · " := htmlEscape_plain (by decide)
  have hdoctype : ("<!doctype html>" ++ "<html lang=en>" ++ "<head>" ++
      "<meta charset=utf-8>").toList = written [tagged "!doctype html" "",
        tagged "html lang=en" "", tagged "head" "", tagged "meta charset=utf-8" ""] := by
    simp [htmlEscape_empty]
  have hhead : ∀ style, htmlEscape style = style →
      ("<title>" ++ htmlEscape report.title ++ "</title>" ++ "<style>" ++ style ++ "</style>" ++
        "</head>" ++ "<body>").toList = written (element "title" report.title ++
          element "style" style ++ [tagged "/head" "", tagged "body" ""]) := by
    intro style hstyle
    simp [element, htmlEscape_empty, hstyle]
  have htitle : ("<h1>" ++ htmlEscape report.title ++ "</h1>").toList =
      written (element "h1" report.title) := by
    simp [element, htmlEscape_empty]
  have hmeta : ("<p class=\"meta\">" ++ "Generated " ++ htmlEscape report.generatedAt ++ " · " ++
      htmlEscape report.parameterLine ++ "</p>").toList = written [tagged "p class=\"meta\""
        ("Generated " ++ report.generatedAt ++ " · " ++ report.parameterLine),
          tagged "/p" ""] := by
    simp [htmlEscape_empty, htmlEscape_append, hgenerated, hdot]
  unfold joined Report.openingParts Report.openingSegments
  simp only [List.flatMap_cons, List.flatMap_nil, List.append_nil, hdoctype,
    hhead reportStyle htmlEscape_style, htitle, hmeta]
  simp only [written_append, List.append_assoc]

theorem verdict_written (report : Report) :
    joined report.verdictParts = written report.verdictSegments := by
  have hresult : htmlEscape "Result: " = "Result: " := htmlEscape_plain (by decide)
  unfold joined Report.verdictParts Report.verdictSegments
  cases report.shownVerdict with
  | none => rfl
  | some verdict => simp [htmlEscape_append, hresult, htmlEscape_empty]

theorem summary_written (report : Report) :
    joined report.summaryParts = written report.summarySegments := by
  have htitle : htmlEscape "Summary" = "Summary" := htmlEscape_plain (by decide)
  unfold joined Report.summaryParts Report.summarySegments
  by_cases h : report.summary = []
  · simp [h]
  · simp [h, element, htitle, htmlEscape_empty, written_flatMap, String.toList_join,
      List.flatMap_map]

theorem notes_written (report : Report) :
    joined report.noteParts = written report.noteSegments := by
  have htitle : htmlEscape "Notes" = "Notes" := htmlEscape_plain (by decide)
  unfold joined Report.noteParts Report.noteSegments
  by_cases h : report.notes = []
  · simp [h]
  · simp [h, element, htitle, htmlEscape_empty, written_flatMap, String.toList_join,
      List.flatMap_map]

theorem tables_written (tables : List ReportTable) :
    joined (tables.map htmlTable) = written (tables.flatMap tableSegments) := by
  unfold joined
  rw [List.flatMap_map, written_flatMap]
  exact List.flatMap_congr fun table _ => htmlTable_written table

/-- **The page is its segments.** -/
theorem renderHtml_written (report : Report) :
    report.renderHtml.toList = written report.segments := by
  have hclosing : joined ["</body>" ++ "</html>"] =
      written [tagged "/body" "", tagged "/html" ""] := by
    simp [joined, htmlEscape_empty]
  have hparts : ∀ first rest : List String, joined (first ++ rest) = joined first ++ joined rest :=
    fun _ _ => List.flatMap_append
  unfold Report.renderHtml Report.segments
  rw [String.toList_join]
  show joined _ = _
  simp only [hparts, written_append, opening_written, verdict_written, summary_written,
    tables_written, notes_written, hclosing]

/-! ## The layout of a page -/

/-- What the tags of a table depend on: its columns, and the cells of each row that are numbers. -/
structure TableLayout where
  columns : Nat
  rows : List (List Bool)
deriving DecidableEq, Repr

/-- What the tags of a page depend on. -/
structure Layout where
  verdictClass : Option String
  entries : Nat
  tables : List TableLayout
  notes : Nat
deriving DecidableEq, Repr

def ReportTable.layout (table : ReportTable) : TableLayout :=
  ⟨table.columns.length, table.rows.map (·.map Cell.numeric)⟩

def Report.layout (report : Report) : Layout :=
  ⟨report.shownVerdict.map Report.verdictClass, report.summary.length,
    report.tables.map ReportTable.layout, report.notes.length⟩

def pair (tag : String) : List String := [tag, "/" ++ tag]

def TableLayout.tags (table : TableLayout) : List String :=
  pair "h2" ++ ["table", "thead", "tr"] ++ (List.replicate table.columns (pair "th")).flatten ++
    ["/tr", "/thead", "tbody"] ++
    (if table.rows = [] then
        ["tr", "td colspan=\"" ++ toString table.columns ++ "\"", "/td", "/tr"]
      else table.rows.flatMap fun row =>
        "tr" :: (row.flatMap (fun numeric => [cellTag numeric, "/td"]) ++ ["/tr"])) ++
    ["/tbody", "/table"]

def Layout.tags (layout : Layout) : List String :=
  ["!doctype html", "html lang=en", "head", "meta charset=utf-8"] ++ pair "title" ++
    pair "style" ++ ["/head", "body"] ++ pair "h1" ++ ["p class=\"meta\"", "/p"] ++
    (match layout.verdictClass with
      | some css => ["p class=\"verdict " ++ css ++ "\"", "/p"]
      | none => []) ++
    (if layout.entries = 0 then []
      else pair "h2" ++ ["dl"] ++
        (List.replicate layout.entries (pair "dt" ++ pair "dd")).flatten ++ ["/dl"]) ++
    layout.tables.flatMap TableLayout.tags ++
    (if layout.notes = 0 then []
      else pair "h2" ++ ["ul"] ++ (List.replicate layout.notes (pair "li")).flatten ++ ["/ul"]) ++
    ["/body", "/html"]

def tagsOf (segments : List Segment) : List String :=
  segments.map fun segment => String.ofList segment.tag

section

@[simp] theorem tagsOf_nil : tagsOf [] = [] := rfl

@[simp] theorem tagsOf_append (first rest : List Segment) :
    tagsOf (first ++ rest) = tagsOf first ++ tagsOf rest := List.map_append

@[simp] theorem tagsOf_tagged (tag text : String) (rest : List Segment) :
    tagsOf (tagged tag text :: rest) = tag :: tagsOf rest := by
  simp [tagsOf, tagged]

@[simp] theorem tagsOf_element (tag text : String) : tagsOf (element tag text) = pair tag := by
  simp [element, pair]

theorem tagsOf_flatMap {α : Type} (items : List α) (segments : α → List Segment) :
    tagsOf (items.flatMap segments) = items.flatMap fun item => tagsOf (segments item) := by
  unfold tagsOf
  exact List.map_flatMap

/-- Items that are each written with the same tags. -/
theorem flatMap_same {α β : Type} (items : List α) (tags : List β) :
    (items.flatMap fun _ => tags) = (List.replicate items.length tags).flatten := by
  induction items with
  | nil => rfl
  | cons item rest ih => simp [List.replicate_succ, ih]

/-- The tags of a table depend on its layout only. -/
theorem tableSegments_tags (table : ReportTable) :
    tagsOf (tableSegments table) = table.layout.tags := by
  have hhead : tagsOf (table.columns.flatMap (element "th")) =
      (List.replicate table.columns.length (pair "th")).flatten := by
    rw [tagsOf_flatMap, ← flatMap_same]
    exact List.flatMap_congr fun c _ => tagsOf_element "th" c
  have hrow : ∀ row : List Cell, tagsOf (rowSegments row) =
      "tr" :: ((row.map Cell.numeric).flatMap (fun numeric => [cellTag numeric, "/td"]) ++
        ["/tr"]) := by
    intro row
    simp [rowSegments, tagsOf_flatMap, cellSegments, List.flatMap_map]
  have hbody : tagsOf (bodySegments table) =
      if table.layout.rows = [] then
        ["tr", "td colspan=\"" ++ toString table.columns.length ++ "\"", "/td", "/tr"]
      else table.layout.rows.flatMap fun row =>
        "tr" :: (row.flatMap (fun numeric => [cellTag numeric, "/td"]) ++ ["/tr"]) := by
    unfold bodySegments ReportTable.layout
    by_cases h : table.rows = []
    · simp [h]
    · simp [h, tagsOf_flatMap, hrow, List.flatMap_map]
  unfold tableSegments TableLayout.tags
  simp only [tagsOf_append, hhead, hbody, tagsOf_element, tagsOf_tagged, tagsOf_nil]
  rfl

/-- **The tags follow from the layout.** -/
theorem segments_tags (report : Report) : tagsOf report.segments = report.layout.tags := by
  have hverdict : tagsOf report.verdictSegments =
      match report.layout.verdictClass with
      | some css => ["p class=\"verdict " ++ css ++ "\"", "/p"]
      | none => [] := by
    unfold Report.verdictSegments Report.layout
    cases report.shownVerdict with
    | none => rfl
    | some verdict => simp
  have hsummary : tagsOf report.summarySegments =
      if report.layout.entries = 0 then []
      else pair "h2" ++ ["dl"] ++
        (List.replicate report.layout.entries (pair "dt" ++ pair "dd")).flatten ++ ["/dl"] := by
    unfold Report.summarySegments Report.layout
    by_cases h : report.summary = []
    · simp [h]
    · simp [h, tagsOf_flatMap, flatMap_same]
  have hnotes : tagsOf report.noteSegments =
      if report.layout.notes = 0 then []
      else pair "h2" ++ ["ul"] ++
        (List.replicate report.layout.notes (pair "li")).flatten ++ ["/ul"] := by
    unfold Report.noteSegments Report.layout
    by_cases h : report.notes = []
    · simp [h]
    · simp [h, tagsOf_flatMap, flatMap_same]
  have htables : tagsOf (report.tables.flatMap tableSegments) =
      report.layout.tables.flatMap TableLayout.tags := by
    rw [tagsOf_flatMap]
    show _ = (report.tables.map ReportTable.layout).flatMap TableLayout.tags
    rw [List.flatMap_map]
    exact List.flatMap_congr fun table _ => tableSegments_tags table
  unfold Report.segments Report.openingSegments Layout.tags
  simp only [tagsOf_append, hverdict, hsummary, hnotes, htables, tagsOf_tagged, tagsOf_element,
    tagsOf_nil, List.append_assoc]

/-- A tag within which no bracket stands. -/
def PlainTag (tag : String) : Prop := '<' ∉ tag.toList ∧ '>' ∉ tag.toList

instance (tag : String) : Decidable (PlainTag tag) := inferInstanceAs (Decidable (_ ∧ _))

theorem PlainTag.append {first rest : String} (hfirst : PlainTag first) (hrest : PlainTag rest) :
    PlainTag (first ++ rest) := by
  obtain ⟨hopen, hclose⟩ := hfirst
  obtain ⟨hopen', hclose'⟩ := hrest
  constructor
  · simp [hopen, hopen']
  · simp [hclose, hclose']

theorem plainTag_nat (n : Nat) : PlainTag (toString n) := by
  have hdigit : ∀ c ∈ (toString n).toList, c.isDigit = true := by
    intro c hc
    have hmem : c ∈ Nat.toDigits 10 n := by simpa using hc
    exact Nat.isDigit_of_mem_toDigits (by decide) (by decide) hmem
  constructor
  · intro h
    exact absurd (hdigit _ h) (by decide)
  · intro h
    exact absurd (hdigit _ h) (by decide)

theorem plainTag_pair {tag : String} (h : PlainTag tag) : ∀ t ∈ pair tag, PlainTag t := by
  intro t ht
  rcases List.mem_pair.mp ht with rfl | rfl
  · exact h
  · exact PlainTag.append (by decide) h

theorem plainTag_replicate {n : Nat} {tags : List String} (h : ∀ tag ∈ tags, PlainTag tag) :
    ∀ tag ∈ (List.replicate n tags).flatten, PlainTag tag := by
  intro tag htag
  obtain ⟨group, hgroup, htag⟩ := List.mem_flatten.mp htag
  rw [List.eq_of_mem_replicate hgroup] at htag
  exact h tag htag

/-- No tag of a table holds an angle bracket. -/
theorem tableTags_plain (table : TableLayout) : ∀ tag ∈ table.tags, PlainTag tag := by
  have hcell : ∀ numeric, PlainTag (cellTag numeric) := by decide
  have hrows : ∀ tag ∈ table.rows.flatMap (fun row =>
      "tr" :: (row.flatMap (fun numeric => [cellTag numeric, "/td"]) ++ ["/tr"])),
      PlainTag tag := by
    intro tag htag
    obtain ⟨row, -, htag⟩ := List.mem_flatMap.mp htag
    simp only [List.mem_cons, List.mem_append, List.mem_flatMap, List.not_mem_nil, or_false] at htag
    rcases htag with rfl | ⟨numeric, -, rfl | rfl⟩ | rfl
    · decide
    · exact hcell numeric
    · decide
    · decide
  have hempty : ∀ tag ∈ ["tr", "td colspan=\"" ++ toString table.columns ++ "\"", "/td", "/tr"],
      PlainTag tag := by
    simp only [List.forall_mem_cons]
    exact ⟨by decide, PlainTag.append (PlainTag.append (by decide) (plainTag_nat _)) (by decide),
      by decide, by decide, by simp⟩
  unfold TableLayout.tags
  simp only [List.forall_mem_append]
  refine ⟨⟨⟨⟨⟨plainTag_pair (by decide), by decide⟩, ?_⟩, by decide⟩, ?_⟩, by decide⟩
  · exact plainTag_replicate (plainTag_pair (by decide))
  · by_cases h : table.rows = []
    · rw [if_pos h]
      exact hempty
    · rw [if_neg h]
      exact hrows

theorem layoutTags_plain (report : Report) : ∀ tag ∈ report.layout.tags, PlainTag tag := by
  have hverdict : ∀ tag ∈ (match report.layout.verdictClass with
      | some css => ["p class=\"verdict " ++ css ++ "\"", "/p"]
      | none => []), PlainTag tag := by
    unfold Report.layout
    cases report.shownVerdict with
    | none => simp
    | some verdict =>
      by_cases h : verdict = "PASS"
      · simp only [Option.map_some, Report.verdictClass, if_pos h]
        decide
      · simp only [Option.map_some, Report.verdictClass, if_neg h]
        decide
  have htables : ∀ tag ∈ report.layout.tables.flatMap TableLayout.tags, PlainTag tag := by
    intro tag htag
    obtain ⟨table, -, htag⟩ := List.mem_flatMap.mp htag
    exact tableTags_plain table tag htag
  have hsummary : ∀ tag ∈ (if report.layout.entries = 0 then []
      else pair "h2" ++ ["dl"] ++
        (List.replicate report.layout.entries (pair "dt" ++ pair "dd")).flatten ++ ["/dl"]),
      PlainTag tag := by
    by_cases h : report.layout.entries = 0
    · simp [h]
    · rw [if_neg h]
      simp only [List.forall_mem_append]
      exact ⟨⟨⟨by decide, by decide⟩, plainTag_replicate (by decide)⟩, by decide⟩
  have hnotes : ∀ tag ∈ (if report.layout.notes = 0 then []
      else pair "h2" ++ ["ul"] ++ (List.replicate report.layout.notes (pair "li")).flatten ++
        ["/ul"]), PlainTag tag := by
    by_cases h : report.layout.notes = 0
    · simp [h]
    · rw [if_neg h]
      simp only [List.forall_mem_append]
      exact ⟨⟨⟨by decide, by decide⟩, plainTag_replicate (by decide)⟩, by decide⟩
  unfold Layout.tags
  simp only [List.forall_mem_append]
  exact ⟨⟨⟨⟨⟨⟨⟨⟨⟨⟨by decide, by decide⟩, by decide⟩, by decide⟩, by decide⟩, by decide⟩, hverdict⟩,
    hsummary⟩, htables⟩, hnotes⟩, by decide⟩

end

/-- **The law of the page.** A browser reads the tags that the layout asks for, each followed by
the value that belongs there, whatever the values say. -/
theorem renderHtml_tokens (report : Report) :
    Markup.tokenise report.renderHtml.toList = {tag := []} :: report.segments ∧
      tagsOf report.segments = report.layout.tags := by
  constructor
  · have hplain : ∀ segment ∈ report.segments, segment.Plain := by
      intro segment hsegment
      have htag : String.ofList segment.tag ∈ report.layout.tags := by
        rw [← segments_tags]
        exact List.mem_map_of_mem hsegment
      simpa [PlainTag, Segment.Plain] using layoutTags_plain report _ htag
    rw [renderHtml_written]
    exact Markup.tokenise_write hplain
  · exact segments_tags report

end Recon
