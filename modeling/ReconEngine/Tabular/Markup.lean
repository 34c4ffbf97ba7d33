import Mathlib.Data.List.Basic

/-!
# Pages with escaped text

A page is tags with text between them. A browser reads it one character after the other: it is in a
text, in a tag, or in a reference that stands for one character of a text.

**The law** (`tokenise_write`): where no tag holds an angle bracket, a page is read as the tags it
was written with, each followed by the text that was written there. So escaped text adds no tag and
ends none, whatever it says (`run_escape`).

**What it does not establish.** The grammar of a markup language: which tags may stand where, and
which of them change how their text is read, is for the writer to know. Attributes are part of a
tag.
-/

set_option autoImplicit false

namespace Recon.Markup

/-! ## Writing -/

/-- The five characters that are written as references, with the names of these. -/
def references : List (List Char × Char) :=
  [("amp".toList, '&'), ("lt".toList, '<'), ("gt".toList, '>'), ("quot".toList, '"'),
    ("#x27".toList, '\'')]

def escapeChar (c : Char) : List Char :=
  match references.find? (·.2 = c) with
  | some (name, _) => '&' :: (name ++ [';'])
  | none => [c]

def escape (text : List Char) : List Char := text.flatMap escapeChar

/-- A tag, without its brackets, and the text that follows it. -/
structure Segment where
  tag : List Char
  text : List Char := []
deriving DecidableEq, Repr

namespace Segment

/-- No bracket ends the tag early or opens another. -/
def Plain (segment : Segment) : Prop := '<' ∉ segment.tag ∧ '>' ∉ segment.tag

instance (segment : Segment) : Decidable segment.Plain := inferInstanceAs (Decidable (_ ∧ _))

def write (segment : Segment) : List Char :=
  '<' :: (segment.tag ++ '>' :: escape segment.text)

end Segment

/-! ## Reading -/

inductive Mode where
  | text
  | tag
  | reference (name : List Char)
deriving DecidableEq, Repr

structure Tokeniser where
  mode : Mode := .text
  tag : List Char := []
  text : List Char := []
  done : List Segment := []
deriving DecidableEq, Repr

namespace Tokeniser

variable (t : Tokeniser)

/-- What has been read, the segment in hand included. -/
def segments : List Segment := t.done ++ [⟨t.tag, t.text⟩]

def step (c : Char) : Tokeniser :=
  match t.mode with
  | .text =>
    if c = '<' then ⟨.tag, [], [], t.segments⟩
    else if c = '&' then { t with mode := .reference [] }
    else { t with text := t.text ++ [c] }
  | .tag => if c = '>' then { t with mode := .text } else { t with tag := t.tag ++ [c] }
  | .reference name =>
    if c = ';' then
      match references.lookup name with
      | some character => { t with mode := .text, text := t.text ++ [character] }
      | none => { t with mode := .text, text := t.text ++ ('&' :: (name ++ [';'])) }
    else { t with mode := .reference (name ++ [c]) }

def run (chars : List Char) : Tokeniser := chars.foldl step t

@[simp] theorem run_nil : t.run [] = t := rfl

@[simp] theorem run_cons (c : Char) (rest : List Char) : t.run (c :: rest) = (t.step c).run rest :=
  rfl

@[simp] theorem run_append (first rest : List Char) :
    t.run (first ++ rest) = (t.run first).run rest := List.foldl_append

end Tokeniser

/-- The segments of a page; the first is the text before any tag. -/
def tokenise (page : List Char) : List Segment := (({} : Tokeniser).run page).segments

/-! ## Reading what was written -/

section

variable {t : Tokeniser}

theorem run_tag {tag : List Char} (hmode : t.mode = .tag) (htag : '>' ∉ tag) :
    t.run tag = { t with tag := t.tag ++ tag } := by
  induction tag generalizing t with
  | nil => simp
  | cons c rest ih =>
    have hc : c ≠ '>' := fun h => htag (h ▸ List.mem_cons_self)
    have hstep : t.step c = { t with tag := t.tag ++ [c] } := by
      simp [Tokeniser.step, hmode, hc]
    rw [Tokeniser.run_cons, hstep, ih (t := { t with tag := t.tag ++ [c] }) hmode
      fun h => htag (List.mem_cons_of_mem c h)]
    simp

/-- The name of a reference, up to its end. -/
theorem run_reference {name rest : List Char} (hmode : t.mode = .reference name)
    (hrest : ';' ∉ rest) : t.run rest = { t with mode := .reference (name ++ rest) } := by
  induction rest generalizing t name with
  | nil => simp [← hmode]
  | cons c rest ih =>
    have hc : c ≠ ';' := fun h => hrest (h ▸ List.mem_cons_self)
    have hstep : t.step c = { t with mode := .reference (name ++ [c]) } := by
      simp [Tokeniser.step, hmode, hc]
    rw [Tokeniser.run_cons, hstep, ih (t := { t with mode := .reference (name ++ [c]) }) rfl
      fun h => hrest (List.mem_cons_of_mem c h)]
    simp

/-- A written character is read as itself. -/
theorem run_escapeChar (hmode : t.mode = .text) (c : Char) :
    t.run (escapeChar c) = { t with text := t.text ++ [c] } := by
  unfold escapeChar
  cases hfind : references.find? (·.2 = c) with
  | none =>
    have hplain : ∀ entry ∈ references, entry.2 ≠ c := by
      intro entry hentry h
      exact absurd (by simpa using h) (List.find?_eq_none.mp hfind entry hentry)
    have hamp : c ≠ '&' := fun h => hplain ("amp".toList, '&') (by simp [references]) h.symm
    have hlt : c ≠ '<' := fun h => hplain ("lt".toList, '<') (by simp [references]) h.symm
    simp [Tokeniser.step, hmode, hamp, hlt]
  | some entry =>
    obtain ⟨name, character⟩ := entry
    have hcharacter : character = c := by simpa using List.find?_some hfind
    have hmem : (name, character) ∈ references := List.mem_of_find?_eq_some hfind
    have hnames : ∀ entry ∈ references,
        ';' ∉ entry.1 ∧ references.lookup entry.1 = some entry.2 := by decide
    obtain ⟨hname, hlookup⟩ := hnames _ hmem
    have hopen : t.step '&' = { t with mode := .reference [] } := by
      simp [Tokeniser.step, hmode]
    simp only [Tokeniser.run_cons, hopen, Tokeniser.run_append, Tokeniser.run_nil,
      run_reference (t := { t with mode := .reference [] }) rfl hname]
    simp [Tokeniser.step, hlookup, hcharacter, hmode]

/-- **Escaped text stays text**: it is read as what it was, and no tag begins or ends in it. -/
theorem run_escape (hmode : t.mode = .text) (text : List Char) :
    t.run (escape text) = { t with text := t.text ++ text } := by
  induction text generalizing t with
  | nil => simp [escape]
  | cons c rest ih =>
    have hrest := ih (t := { t with text := t.text ++ [c] }) hmode
    unfold escape at hrest ⊢
    rw [List.flatMap_cons, Tokeniser.run_append, run_escapeChar hmode, hrest]
    simp

theorem run_segment {segment : Segment} (hmode : t.mode = .text) (hplain : segment.Plain) :
    t.run segment.write = ⟨.text, segment.tag, segment.text, t.segments⟩ := by
  have hopen : t.step '<' = ⟨.tag, [], [], t.segments⟩ := by simp [Tokeniser.step, hmode]
  have htag := run_tag (t := ⟨.tag, [], [], t.segments⟩) rfl hplain.2
  have htext := run_escape (t := ⟨.text, segment.tag, [], t.segments⟩) rfl segment.text
  unfold Segment.write
  rw [Tokeniser.run_cons, hopen, Tokeniser.run_append, htag, Tokeniser.run_cons]
  exact htext

theorem run_segments {segments : List Segment} (hmode : t.mode = .text)
    (hplain : ∀ segment ∈ segments, segment.Plain) :
    (t.run (segments.flatMap Segment.write)).segments = t.segments ++ segments := by
  induction segments generalizing t with
  | nil => simp
  | cons segment rest ih =>
    have hrest := ih (t := ⟨.text, segment.tag, segment.text, t.segments⟩) rfl
      fun other hother => hplain other (List.mem_cons_of_mem segment hother)
    rw [List.flatMap_cons, Tokeniser.run_append,
      run_segment hmode (hplain segment List.mem_cons_self), hrest]
    simp [Tokeniser.segments]

/-- **The law of pages.** -/
theorem tokenise_write {segments : List Segment} (hplain : ∀ segment ∈ segments, segment.Plain) :
    tokenise (segments.flatMap Segment.write) = {tag := []} :: segments :=
  run_segments rfl hplain

end

end Recon.Markup
