import Mathlib.Data.List.Sort
import Mathlib.Tactic.IntervalCases

/-!
# Compact JSON text

JSON values without fractions, their compact text with only the obligatory escapes, and the law
that the text determines the value. `render_unique` states it the way the proof needs it: two
texts that go on differently cannot hide a different value, as long as what follows a number is
not a digit (`Stops`). `render_injective` is the closed form.

`Json.sorted` puts the members of every object in the order of their keys, so that two values
which differ only in member order have one text.

**What it does not establish.** A reader: the law is that texts separate values, and nothing is
parsed. Strings are sequences of characters; lone surrogates, which Python can hold, are not among
them.
-/

set_option autoImplicit false

namespace JsonText

inductive Json where
  | null
  | bool (b : Bool)
  | num (n : Int)
  | str (s : String)
  | arr (items : List Json)
  | obj (members : List (String × Json))

/-! ## Rendering -/

/-- The decimal digits of a number, most significant first. -/
def digits (n : Nat) : List Char := Nat.toDigits 10 n

def renderInt (n : Int) : List Char :=
  if n < 0 then '-' :: digits n.natAbs else digits n.natAbs

def hexDigit (n : Nat) : Char := Nat.digitChar (n % 16)

/-- A character inside a string: quotes, backslashes and control characters are escaped, nothing
else. -/
def escapeChar (c : Char) : List Char :=
  if c = '"' then ['\\', '"']
  else if c = '\\' then ['\\', '\\']
  else if 32 ≤ c.toNat then [c]
  else if c = '\n' then ['\\', 'n']
  else if c = '\r' then ['\\', 'r']
  else if c = '\t' then ['\\', 't']
  else if c = '\x08' then ['\\', 'b']
  else if c = '\x0c' then ['\\', 'f']
  else ['\\', 'u', '0', '0', hexDigit (c.toNat / 16), hexDigit c.toNat]

def renderStr (s : String) : List Char := '"' :: s.toList.flatMap escapeChar ++ ['"']

mutual

def render : Json → List Char
  | .null => ['n', 'u', 'l', 'l']
  | .bool true => ['t', 'r', 'u', 'e']
  | .bool false => ['f', 'a', 'l', 's', 'e']
  | .num n => renderInt n
  | .str s => renderStr s
  | .arr items => '[' :: renderItems items
  | .obj members => '{' :: renderMembers members

/-- An array's text after its opening bracket. -/
def renderItems : List Json → List Char
  | [] => [']']
  | x :: xs => render x ++ renderMoreItems xs

def renderMoreItems : List Json → List Char
  | [] => [']']
  | x :: xs => ',' :: (render x ++ renderMoreItems xs)

/-- An object's text after its opening brace. -/
def renderMembers : List (String × Json) → List Char
  | [] => ['}']
  | (k, v) :: rest => renderStr k ++ ':' :: (render v ++ renderMoreMembers rest)

def renderMoreMembers : List (String × Json) → List Char
  | [] => ['}']
  | (k, v) :: rest => ',' :: (renderStr k ++ ':' :: (render v ++ renderMoreMembers rest))

end

mutual

/-- The value with the members of every object sorted by key. -/
def Json.sorted : Json → Json
  | .null => .null
  | .bool b => .bool b
  | .num n => .num n
  | .str s => .str s
  | .arr items => .arr (sortedItems items)
  | .obj members => .obj ((sortedMembers members).insertionSort fun a b => a.1 ≤ b.1)

def sortedItems : List Json → List Json
  | [] => []
  | x :: xs => x.sorted :: sortedItems xs

def sortedMembers : List (String × Json) → List (String × Json)
  | [] => []
  | (k, v) :: rest => (k, v.sorted) :: sortedMembers rest

end

/-! ## Numbers and strings can be read back -/

/-- What may follow a number: nothing, or something that does not prolong it. -/
def Stops (s : List Char) : Prop := ∀ c ∈ s.head?, c.isDigit = false

theorem stops_cons {c : Char} {s : List Char} (h : c.isDigit = false) : Stops (c :: s) := by
  intro c' hc'
  cases hc'
  exact h

theorem stops_nil : Stops [] := fun _ h => by cases h

theorem digits_isDigit {n : Nat} {c : Char} (h : c ∈ digits n) : c.isDigit = true :=
  Nat.isDigit_of_mem_toDigits (by decide) (by decide) h

/-- A digit string followed by something else is the longest run of digits. -/
theorem digits_unique {m n : Nat} {s t : List Char} (hs : Stops s) (ht : Stops t)
    (h : digits m ++ s = digits n ++ t) : m = n ∧ s = t := by
  have run : ∀ (k : Nat) (r : List Char), Stops r →
      (digits k ++ r).takeWhile Char.isDigit = digits k := by
    intro k r hr
    rw [List.takeWhile_append_of_pos fun c hc => digits_isDigit hc]
    cases r with
    | nil => simp
    | cons c r => simp [hr c rfl]
  have hd : digits m = digits n := by rw [← run m s hs, ← run n t ht, h]
  refine ⟨?_, List.append_cancel_left (hd ▸ h)⟩
  have hm := Nat.ofDigitChars_ten_toDigits (n := m)
  have hn := Nat.ofDigitChars_ten_toDigits (n := n)
  rw [← hm, ← hn]
  exact congrArg (Nat.ofDigitChars 10 · 0) hd

theorem digits_ne_nil (n : Nat) : digits n ≠ [] := Nat.toDigits_ne_nil

theorem digits_head (n : Nat) : ∃ c cs, digits n = c :: cs ∧ c.isDigit = true := by
  rcases h : digits n with _ | ⟨c, cs⟩
  · exact absurd h (digits_ne_nil n)
  · exact ⟨c, cs, rfl, digits_isDigit (n := n) (by rw [h]; exact List.mem_cons_self)⟩

/-- A number is told from its text, as long as no digit follows. -/
theorem renderInt_unique {m n : Int} {s t : List Char} (hs : Stops s) (ht : Stops t)
    (h : renderInt m ++ s = renderInt n ++ t) : m = n ∧ s = t := by
  -- A minus sign is not a digit, so the two numbers have the same sign.
  have mixed : ∀ (a b : Nat) (u v : List Char), '-' :: digits a ++ u ≠ digits b ++ v := by
    intro a b u v he
    obtain ⟨c, cs, hc, hdig⟩ := digits_head b
    rw [hc] at he
    obtain ⟨hhead, -⟩ := List.cons.inj he
    rw [← hhead] at hdig
    revert hdig
    decide
  unfold renderInt at h
  split at h <;> split at h
  · obtain ⟨hn, hst⟩ := digits_unique hs ht (List.cons.inj h).2
    exact ⟨by omega, hst⟩
  · exact absurd h (mixed _ _ _ _)
  · exact absurd h.symm (mixed _ _ _ _)
  · obtain ⟨hn, hst⟩ := digits_unique hs ht h
    exact ⟨by omega, hst⟩

/-- The value of a lower-case hexadecimal digit. -/
def hexVal (c : Char) : Nat := if c.isDigit then c.toNat - 48 else c.toNat - 87

/-- Read one possibly escaped character. -/
def unescape : List Char → Option (Char × List Char)
  | '\\' :: 'n' :: s => some ('\n', s)
  | '\\' :: 'r' :: s => some ('\r', s)
  | '\\' :: 't' :: s => some ('\t', s)
  | '\\' :: 'b' :: s => some ('\x08', s)
  | '\\' :: 'f' :: s => some ('\x0c', s)
  | '\\' :: 'u' :: '0' :: '0' :: h :: l :: s => some (Char.ofNat (16 * hexVal h + hexVal l), s)
  | '\\' :: c :: s => some (c, s)
  | '"' :: _ => none
  | c :: s => some (c, s)
  | [] => none

private theorem hex_ofNat (n : Nat) (h : n < 32) :
    Char.ofNat (16 * hexVal (hexDigit (n / 16)) + hexVal (hexDigit n)) = Char.ofNat n := by
  interval_cases n <;> rfl

/-- An escaped character is read back. -/
theorem unescape_escapeChar (c : Char) (s : List Char) :
    unescape (escapeChar c ++ s) = some (c, s) := by
  unfold escapeChar
  split_ifs with h₁ h₂ h₃ h₄ h₅ h₆ h₇ h₈
  · rw [h₁]; rfl
  · rw [h₂]; rfl
  · have plain : ∀ u, unescape (c :: u) = some (c, u) := by
      intro u
      unfold unescape
      split <;> simp_all
    exact plain s
  · rw [h₄]; rfl
  · rw [h₅]; rfl
  · rw [h₆]; rfl
  · rw [h₇]; rfl
  · rw [h₈]; rfl
  · show some (Char.ofNat _, s) = _
    rw [hex_ofNat c.toNat (by omega), Char.ofNat_toNat]

/-- A quote ends a string's text: no escape starts with one. -/
theorem escapeChar_ne_quote (c : Char) (s t : List Char) : escapeChar c ++ s ≠ '"' :: t := by
  intro h
  have hu := unescape_escapeChar c s
  rw [h] at hu
  cases hu

/-- Escaped texts are told apart up to the closing quote. -/
theorem escaped_unique : ∀ (cs ds : List Char) (s t : List Char),
    cs.flatMap escapeChar ++ '"' :: s = ds.flatMap escapeChar ++ '"' :: t → cs = ds ∧ s = t
  | [], [], s, t, h => ⟨rfl, (List.cons.inj h).2⟩
  | [], d :: ds, s, t, h => by
    rw [List.flatMap_cons, List.append_assoc] at h
    exact absurd h.symm (escapeChar_ne_quote d _ _)
  | c :: cs, [], s, t, h => by
    rw [List.flatMap_cons, List.append_assoc] at h
    exact absurd h (escapeChar_ne_quote c _ _)
  | c :: cs, d :: ds, s, t, h => by
    simp only [List.flatMap_cons, List.append_assoc] at h
    have hu := congrArg unescape h
    rw [unescape_escapeChar, unescape_escapeChar] at hu
    obtain ⟨hcd, hrest⟩ := Prod.mk.inj (Option.some.inj hu)
    obtain ⟨htail, hst⟩ := escaped_unique cs ds s t hrest
    exact ⟨by rw [hcd, htail], hst⟩

theorem renderStr_unique {a b : String} {s t : List Char}
    (h : renderStr a ++ s = renderStr b ++ t) : a = b ∧ s = t := by
  simp only [renderStr, List.cons_append, List.append_assoc, List.cons.injEq, true_and,
    List.nil_append] at h
  obtain ⟨hab, hst⟩ := escaped_unique a.toList b.toList s t h
  exact ⟨String.toList_inj.mp hab, hst⟩

/-! ## The text determines the value -/

/-- The constructor that a text's first character announces. -/
def kindOf (c : Char) : Nat :=
  if c = 'n' then 0
  else if c = 't' then 1
  else if c = 'f' then 2
  else if c = '"' then 3
  else if c = '[' then 4
  else if c = '{' then 5
  else if c.isDigit || c = '-' then 6
  else 7

def Json.kind : Json → Nat
  | .null => 0
  | .bool true => 1
  | .bool false => 2
  | .str _ => 3
  | .arr _ => 4
  | .obj _ => 5
  | .num _ => 6

theorem kindOf_digit {c : Char} (h : c.isDigit = true) : kindOf c = 6 := by
  have hne : ∀ d : Char, d.isDigit = false → c ≠ d := by
    rintro d hd rfl
    rw [h] at hd
    cases hd
  simp [kindOf, h, hne 'n' (by decide), hne 't' (by decide), hne 'f' (by decide),
    hne '"' (by decide), hne '[' (by decide), hne '{' (by decide)]

/-- The first character says what kind of value follows. -/
theorem render_head (a : Json) : ∃ c cs, render a = c :: cs ∧ kindOf c = a.kind := by
  cases a with
  | null => exact ⟨_, _, render.eq_1, rfl⟩
  | bool b => cases b <;> exact ⟨_, _, by rw [render], rfl⟩
  | str s => exact ⟨'"', _, by rw [render, renderStr, List.cons_append], rfl⟩
  | arr items => exact ⟨_, _, by rw [render], rfl⟩
  | obj members => exact ⟨_, _, by rw [render], rfl⟩
  | num n =>
    rw [render, renderInt]
    split
    · exact ⟨_, _, rfl, rfl⟩
    · obtain ⟨c, cs, hc, hdig⟩ := digits_head n.natAbs
      exact ⟨c, cs, hc, kindOf_digit hdig⟩

theorem kind_eq {a b : Json} {s t : List Char} (h : render a ++ s = render b ++ t) :
    a.kind = b.kind := by
  obtain ⟨c, cs, hc, hca⟩ := render_head a
  obtain ⟨d, ds, hd, hdb⟩ := render_head b
  rw [hc, hd] at h
  rw [← hca, ← hdb, (List.cons.inj h).1]

/-- No value starts with a closing bracket. -/
theorem render_ne_close {a : Json} {s t : List Char} {c : Char} (hc : kindOf c = 7) :
    render a ++ s ≠ c :: t := by
  intro h
  obtain ⟨d, ds, hd, hda⟩ := render_head a
  rw [hd] at h
  rw [(List.cons.inj h).1, hc] at hda
  rcases a with _ | b | _ | _ | _ | _ <;> try cases b
  all_goals cases hda

/-- After an item of a list no digit follows. -/
theorem renderMoreItems_stops (xs : List Json) (s : List Char) :
    Stops (renderMoreItems xs ++ s) := by
  cases xs <;> exact stops_cons (by decide)

theorem renderMoreMembers_stops (ms : List (String × Json)) (s : List Char) :
    Stops (renderMoreMembers ms ++ s) := by
  rcases ms with _ | ⟨⟨k, v⟩, rest⟩ <;> exact stops_cons (by decide)

mutual

/-- A value's text determines the value and where its text ends. -/
theorem render_unique : ∀ (a b : Json) (s t : List Char), Stops s → Stops t →
    render a ++ s = render b ++ t → a = b ∧ s = t
  | .null, b, s, t, _, _, h => by
    have hk := kind_eq h
    cases b with
    | null => exact ⟨rfl, List.append_cancel_left h⟩
    | bool b => cases b <;> cases hk
    | _ => cases hk
  | .bool x, b, s, t, _, _, h => by
    have hk := kind_eq h
    cases b with
    | bool y =>
      cases x <;> cases y
      case false.false => exact ⟨rfl, List.append_cancel_left h⟩
      case true.true => exact ⟨rfl, List.append_cancel_left h⟩
      all_goals cases hk
    | _ => cases x <;> cases hk
  | .num n, b, s, t, hs, ht, h => by
    have hk := kind_eq h
    cases b with
    | num m =>
      rw [render, render] at h
      obtain ⟨rfl, hst⟩ := renderInt_unique hs ht h
      exact ⟨rfl, hst⟩
    | bool b => cases b <;> cases hk
    | _ => cases hk
  | .str x, b, s, t, _, _, h => by
    have hk := kind_eq h
    cases b with
    | str y =>
      rw [render, render] at h
      obtain ⟨rfl, hst⟩ := renderStr_unique h
      exact ⟨rfl, hst⟩
    | bool b => cases b <;> cases hk
    | _ => cases hk
  | .arr xs, b, s, t, _, _, h => by
    have hk := kind_eq h
    cases b with
    | arr ys =>
      rw [render, render] at h
      obtain ⟨rfl, hst⟩ := renderItems_unique xs ys s t (List.cons.inj h).2
      exact ⟨rfl, hst⟩
    | bool b => cases b <;> cases hk
    | _ => cases hk
  | .obj ms, b, s, t, _, _, h => by
    have hk := kind_eq h
    cases b with
    | obj ns =>
      rw [render, render] at h
      obtain ⟨rfl, hst⟩ := renderMembers_unique ms ns s t (List.cons.inj h).2
      exact ⟨rfl, hst⟩
    | bool b => cases b <;> cases hk
    | _ => cases hk

/-- Lists are told apart, item by item. -/
theorem renderItems_unique : ∀ (xs ys : List Json) (s t : List Char),
    renderItems xs ++ s = renderItems ys ++ t → xs = ys ∧ s = t
  | [], [], s, t, h => ⟨rfl, List.append_cancel_left h⟩
  | [], y :: ys, s, t, h => by
    rw [renderItems, renderItems, List.append_assoc] at h
    exact absurd h.symm (render_ne_close rfl)
  | x :: xs, [], s, t, h => by
    rw [renderItems, renderItems, List.append_assoc] at h
    exact absurd h (render_ne_close rfl)
  | x :: xs, y :: ys, s, t, h => by
    rw [renderItems, renderItems, List.append_assoc, List.append_assoc] at h
    obtain ⟨rfl, hrest⟩ := render_unique x y _ _ (renderMoreItems_stops xs s)
      (renderMoreItems_stops ys t) h
    obtain ⟨rfl, hst⟩ := renderMoreItems_unique xs ys s t hrest
    exact ⟨rfl, hst⟩

theorem renderMoreItems_unique : ∀ (xs ys : List Json) (s t : List Char),
    renderMoreItems xs ++ s = renderMoreItems ys ++ t → xs = ys ∧ s = t
  | [], [], s, t, h => ⟨rfl, List.append_cancel_left h⟩
  | [], y :: ys, s, t, h => by
    rw [renderMoreItems, renderMoreItems] at h
    cases (List.cons.inj h).1
  | x :: xs, [], s, t, h => by
    rw [renderMoreItems, renderMoreItems] at h
    cases (List.cons.inj h).1
  | x :: xs, y :: ys, s, t, h => by
    simp only [renderMoreItems, List.cons_append, List.append_assoc, List.cons.injEq,
      true_and] at h
    obtain ⟨rfl, hrest⟩ := render_unique x y _ _ (renderMoreItems_stops xs s)
      (renderMoreItems_stops ys t) h
    obtain ⟨rfl, hst⟩ := renderMoreItems_unique xs ys s t hrest
    exact ⟨rfl, hst⟩

/-- Objects are told apart, member by member. -/
theorem renderMembers_unique : ∀ (ms ns : List (String × Json)) (s t : List Char),
    renderMembers ms ++ s = renderMembers ns ++ t → ms = ns ∧ s = t
  | [], [], s, t, h => ⟨rfl, List.append_cancel_left h⟩
  | [], (l, w) :: ns, s, t, h => by
    rw [renderMembers, renderMembers, renderStr, List.cons_append] at h
    cases (List.cons.inj h).1
  | (k, v) :: ms, [], s, t, h => by
    rw [renderMembers, renderMembers, renderStr, List.cons_append] at h
    cases (List.cons.inj h).1
  | (k, v) :: ms, (l, w) :: ns, s, t, h => by
    simp only [renderMembers, List.append_assoc, List.cons_append] at h
    obtain ⟨rfl, hv⟩ := renderStr_unique h
    obtain ⟨rfl, hrest⟩ := render_unique v w _ _ (renderMoreMembers_stops ms s)
      (renderMoreMembers_stops ns t) (List.cons.inj hv).2
    obtain ⟨rfl, hst⟩ := renderMoreMembers_unique ms ns s t hrest
    exact ⟨rfl, hst⟩

theorem renderMoreMembers_unique : ∀ (ms ns : List (String × Json)) (s t : List Char),
    renderMoreMembers ms ++ s = renderMoreMembers ns ++ t → ms = ns ∧ s = t
  | [], [], s, t, h => ⟨rfl, List.append_cancel_left h⟩
  | [], (l, w) :: ns, s, t, h => by
    rw [renderMoreMembers, renderMoreMembers] at h
    cases (List.cons.inj h).1
  | (k, v) :: ms, [], s, t, h => by
    rw [renderMoreMembers, renderMoreMembers] at h
    cases (List.cons.inj h).1
  | (k, v) :: ms, (l, w) :: ns, s, t, h => by
    simp only [renderMoreMembers, List.cons_append, List.append_assoc, List.cons.injEq,
      true_and] at h
    obtain ⟨rfl, hv⟩ := renderStr_unique h
    obtain ⟨rfl, hrest⟩ := render_unique v w _ _ (renderMoreMembers_stops ms s)
      (renderMoreMembers_stops ns t) (List.cons.inj hv).2
    obtain ⟨rfl, hst⟩ := renderMoreMembers_unique ms ns s t hrest
    exact ⟨rfl, hst⟩

end

/-- The text determines the value. -/
theorem render_injective {a b : Json} (h : render a = render b) : a = b :=
  (render_unique a b [] [] stops_nil stops_nil (by rw [h])).1

end JsonText
