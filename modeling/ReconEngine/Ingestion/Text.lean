import ReconEngine.Matching.Exact

/-!
# Texts as Python reads them

What the parsers use of Python's strings, on lists of characters: digits, surrounding blanks,
replacement, and lines. A digit is a decimal character of any script, with the value it has there.

**What it does not establish.** The tables of Unicode are not here: which characters are decimal
digits is listed by their ranges, which blanks `str.strip` removes by its list; letters and their
cases are parameters of those who need them.
-/

set_option autoImplicit false

namespace Recon

/-! ## Digits -/

/-- The zeros of the decimal digits, in Unicode 14. Nine more digits follow each of them. -/
def decimalZeros : List Nat :=
  [0x30, 0x660, 0x6f0, 0x7c0, 0x966, 0x9e6, 0xa66, 0xae6, 0xb66, 0xbe6, 0xc66, 0xce6, 0xd66, 0xde6,
    0xe50, 0xed0, 0xf20, 0x1040, 0x1090, 0x17e0, 0x1810, 0x1946, 0x19d0, 0x1a80, 0x1a90, 0x1b50,
    0x1bb0, 0x1c40, 0x1c50, 0xa620, 0xa8d0, 0xa900, 0xa9d0, 0xa9f0, 0xaa50, 0xabf0, 0xff10, 0x104a0,
    0x10d30, 0x11066, 0x110f0, 0x11136, 0x111d0, 0x112f0, 0x11450, 0x114d0, 0x11650, 0x116c0,
    0x11730, 0x118e0, 0x11950, 0x11c50, 0x11d50, 0x11da0, 0x16a60, 0x16ac0, 0x16b50, 0x1d7ce,
    0x1d7d8, 0x1d7e2, 0x1d7ec, 0x1d7f6, 0x1e140, 0x1e2f0, 0x1e950, 0x1fbf0]

/-- `int(c)`, for a character that `\d` matches. -/
def decimalValue (c : Char) : Option Nat :=
  (decimalZeros.find? fun first => first ≤ c.toNat ∧ c.toNat < first + 10).map (c.toNat - ·)

/-- `\d`. -/
def isDecimal (c : Char) : Bool := (decimalValue c).isSome

/-! ## Blanks -/

/-- `text.strip()`. -/
def stripChars (text : List Char) : List Char :=
  ((text.dropWhile pythonBlank).reverse.dropWhile pythonBlank).reverse

def strip (text : String) : String := String.ofList (stripChars text.toList)

/-- `not text.strip()`. -/
def isBlank (text : List Char) : Bool := text.all pythonBlank

/-! ## Replacement -/

/-- Replacing from here on, when the next characters belong to a text that was found. -/
def replaceFrom (old new : List Char) : Nat → List Char → List Char
  | _, [] => []
  | found + 1, _ :: rest => replaceFrom old new found rest
  | 0, c :: rest =>
    if old.isPrefixOf (c :: rest) then new ++ replaceFrom old new (old.length - 1) rest
    else c :: replaceFrom old new 0 rest

/-- `text.replace(old, new)`; an empty text stands before every character and at the end. -/
def replaceText (text old new : String) : String :=
  String.ofList
    (if old.toList = [] then (text.toList.flatMap fun c => new.toList ++ [c]) ++ new.toList
    else replaceFrom old.toList new.toList 0 text.toList)

/-! ## Lines -/

/-- The characters that end a line for `splitlines`. -/
def isLineEnd (c : Char) : Bool :=
  [0x0a, 0x0b, 0x0c, 0x0d, 0x1c, 0x1d, 0x1e, 0x85, 0x2028, 0x2029].contains c.toNat

/-- `splitlines`, after the characters of an unfinished line. -/
def splitLinesFrom : List Char → List Char → List (List Char)
  | line, [] => if line = [] then [] else [line]
  | line, '\r' :: '\n' :: rest => line :: splitLinesFrom [] rest
  | line, c :: rest =>
    if isLineEnd c then line :: splitLinesFrom [] rest else splitLinesFrom (line ++ [c]) rest

def splitLines (text : List Char) : List (List Char) := splitLinesFrom [] text

theorem newline_not_mem_splitLinesFrom (line text : List Char) (hline : '\n' ∉ line) :
    ∀ l ∈ splitLinesFrom line text, '\n' ∉ l := by
  induction line, text using splitLinesFrom.induct with
  | case1 => simp [splitLinesFrom]
  | case2 line hne => simpa [splitLinesFrom, hne] using hline
  | case3 line rest ih =>
    simp only [splitLinesFrom, List.mem_cons, forall_eq_or_imp]
    exact ⟨hline, ih List.not_mem_nil⟩
  | case4 line c rest hne hend ih =>
    rw [splitLinesFrom, if_pos hend]
    · simp only [List.mem_cons, forall_eq_or_imp]
      exact ⟨hline, ih List.not_mem_nil⟩
    · exact hne
  | case5 line c rest hne hend ih =>
    rw [splitLinesFrom, if_neg hend]
    · apply ih
      simp only [List.mem_append, List.mem_singleton, not_or]
      refine ⟨hline, fun h => hend ?_⟩
      rw [← h]
      rfl
    · exact hne

/-- No line contains a line feed. -/
theorem newline_not_mem_splitLines {text l : List Char} (h : l ∈ splitLines text) : '\n' ∉ l :=
  newline_not_mem_splitLinesFrom [] text List.not_mem_nil l h

end Recon
