import ReconEngine.Store.Reliance
import ReconEngine.Store.Waiting

/-!
# How sessions go about their locks

A session finds rows by reading, and asks for locks of what it was told about, or has found, and in
an order of its own. A `Conduct` says both: what a read adds to what the session has found, and for
which locks it may ask when it has found and holds what it has. `Prog.Takes` says of a program that
it keeps to a conduct.

What the sessions of a system have found is not in its state. `System.noted` keeps notes of it
beside a run, and a condition that speaks of the notes is checked along the run (`Along`).

**The law** (`Keeps.throughout`): the sessions of a run whose programs keep to their conducts do so
in every state of it, with the notes taken so far. So each lock that is asked for is one that the
conduct allows, and what follows from that and from the condition holds in every state.

**What it does not establish.** A conduct that allows everything says nothing; it is for the
programs to keep to one that excludes what is feared.
-/

set_option autoImplicit false

namespace Store

variable {S : Schema} {α β : Type}

/-- What a read adds to what a session has found, and for which locks it may ask with what it has
found and holds. -/
structure Conduct (S : Schema) where
  found : List S.Lock → S.Db → List S.Lock
  asks : List S.Lock → List S.Lock → S.Lock → Prop

namespace Prog

/-- With `notes` found and `held` held, `p` asks only for locks that the conduct allows, and ends
with a value in `Q` when it does not fail. -/
def Takes (C : Conduct S) (Q : α → List S.Lock → List S.Lock → Prop) :
    Prog S α → List S.Lock → List S.Lock → Prop
  | .pure a, notes, held => Q a notes held
  | .fail _, _, _ => True
  | .read _ next, notes, held => ∀ d, (next d).Takes C Q (C.found notes d ++ notes) held
  | .lock l next, notes, held => C.asks notes held l ∧ next.Takes C Q notes (l :: held)
  | .fresh next, notes, held => ∀ m, (next m).Takes C Q notes held
  | .write _ next, notes, held => next.Takes C Q notes held
  | .undo _ b next, notes, held => next.Takes C Q notes (held.drop b)
  | .unmark next, notes, held => next.Takes C Q notes held
  | .commit next, _, _ => next.Takes C Q [] []
  | .rollback next, _, _ => next.Takes C Q [] []

section

variable {C : Conduct S} {Q : α → List S.Lock → List S.Lock → Prop} {notes held : List S.Lock}

@[simp] theorem takes_pure {a : α} : (Prog.pure a).Takes C Q notes held ↔ Q a notes held := Iff.rfl

@[simp] theorem takes_fail {e : S.Err} : (Prog.fail e : Prog S α).Takes C Q notes held := trivial

@[simp] theorem takes_view {Q : S.Db → List S.Lock → List S.Lock → Prop} :
    view.Takes C Q notes held ↔ ∀ d, Q d (C.found notes d ++ notes) held := Iff.rfl

@[simp] theorem takes_lockRow {Q : Unit → List S.Lock → List S.Lock → Prop} {l : S.Lock} :
    (lockRow l).Takes C Q notes held ↔ C.asks notes held l ∧ Q () notes (l :: held) := Iff.rfl

@[simp] theorem takes_newId {Q : Nat → List S.Lock → List S.Lock → Prop} :
    newId.Takes C Q notes held ↔ ∀ m, Q m notes held := Iff.rfl

@[simp] theorem takes_put {Q : Unit → List S.Lock → List S.Lock → Prop} {w : S.Write} :
    (put w).Takes C Q notes held ↔ Q () notes held := Iff.rfl

@[simp] theorem takes_commitNow {Q : Unit → List S.Lock → List S.Lock → Prop} :
    commitNow.Takes C Q notes held ↔ Q () [] [] := Iff.rfl

@[simp] theorem takes_require {Q : Unit → List S.Lock → List S.Lock → Prop} {c : Bool}
    {e : S.Err} : (require c e).Takes C Q notes held ↔ (c = true → Q () notes held) := by
  cases c with
  | true => exact ⟨fun h _ => h, fun h => h rfl⟩
  | false => exact ⟨fun _ h => absurd h Bool.false_ne_true, fun _ => trivial⟩

/-- A program keeps to a conduct where its first part does and leads to a place where the second
does. -/
@[simp] theorem takes_bind {p : Prog S β} {f : β → Prog S α} :
    (p.bind f).Takes C Q notes held ↔
      p.Takes C (fun b notes' held' => (f b).Takes C Q notes' held') notes held := by
  induction p generalizing notes held with
  | pure b => exact Iff.rfl
  | fail e => exact Iff.rfl
  | read marks next ih => exact forall_congr' fun d => ih d
  | lock l next ih => exact and_congr Iff.rfl ih
  | fresh next ih => exact forall_congr' fun m => ih m
  | write w next ih => exact ih
  | undo a b next ih => exact ih
  | unmark next ih => exact ih
  | commit next ih => exact ih
  | rollback next ih => exact ih

/-- What holds at the end may be weakened. -/
theorem Takes.mono {Q' : α → List S.Lock → List S.Lock → Prop} {p : Prog S α}
    (h : p.Takes C Q notes held) (hQ : ∀ a notes' held', Q a notes' held' → Q' a notes' held') :
    p.Takes C Q' notes held := by
  induction p generalizing notes held with
  | pure a => exact hQ _ _ _ h
  | fail e => trivial
  | read marks next ih => exact fun d => ih d (h d)
  | lock l next ih => exact ⟨h.1, ih h.2⟩
  | fresh next ih => exact fun m => ih m (h m)
  | write w next ih => exact ih h
  | undo a b next ih => exact ih h
  | unmark next ih => exact ih h
  | commit next ih => exact ih h
  | rollback next ih => exact ih h

/-- What a program ends with satisfies what all its values do. -/
theorem Takes.returns {P : α → Prop} {p : Prog S α} (h : p.Takes C Q notes held)
    (hr : p.Returns P) : p.Takes C (fun a notes' held' => P a ∧ Q a notes' held') notes held := by
  induction p generalizing notes held with
  | pure a => exact ⟨hr, h⟩
  | fail e => trivial
  | read marks next ih => exact fun d => ih d (h d) (hr d)
  | lock l next ih => exact ⟨h.1, ih h.2 hr⟩
  | fresh next ih => exact fun m => ih m (h m) (hr m)
  | write w next ih => exact ih h hr
  | undo a b next ih => exact ih h hr
  | unmark next ih => exact ih h hr
  | commit next ih => exact ih h hr
  | rollback next ih => exact ih h hr

/-- The locks of `L` taken on top of `held`, with notes that include `notes`. -/
def Above (L : S.Lock → Prop) (notes held notes' held' : List S.Lock) : Prop :=
  notes ⊆ notes' ∧ ∃ taken, held' = taken ++ held ∧ ∀ l ∈ taken, L l

/-- Work in one transaction that locks only what is in `L` gives back only what it has taken. So it
keeps to a conduct that allows the locks of `L` with whatever it has taken of them. -/
theorem Inner.takes {W : S.Write → Prop} {L : S.Lock → Prop} {p : Prog S α} {n k : Nat}
    (hp : p.Inner W n k) (hs : p.SteadyToEnd L) {notes₀ held₀ taken : List S.Lock}
    (hasks : ∀ notes' held', Above L notes₀ held₀ notes' held' → ∀ l, L l → C.asks notes' held' l)
    (hnotes : notes₀ ⊆ notes) (hheld : held = taken ++ held₀) (hlength : taken.length = k)
    (htaken : ∀ l ∈ taken, L l) :
    p.Takes C (fun _ notes' held' => Above L notes₀ held₀ notes' held') notes held := by
  induction p generalizing n k notes held taken with
  | pure a => exact ⟨hnotes, taken, hheld, htaken⟩
  | fail e => trivial
  | read marks next ih =>
    exact fun d => ih d (hp d) (hs d) (fun l hl => List.mem_append_right _ (hnotes hl)) hheld
      hlength htaken
  | lock l next ih =>
    refine ⟨hasks _ _ ⟨hnotes, taken, hheld, htaken⟩ l hs.1, ?_⟩
    have hheld' : l :: held = (l :: taken) ++ held₀ := congrArg (l :: ·) hheld
    refine ih hp hs.2 hnotes hheld' (by simp [hlength]) ?_
    intro l' hl'
    obtain rfl | hold := List.mem_cons.mp hl'
    · exact hs.1
    · exact htaken l' hold
  | fresh next ih => exact fun m => ih m (hp m) (hs m) hnotes hheld hlength htaken
  | write w next ih => exact ih hp.2 hs hnotes hheld hlength htaken
  | undo a b next ih =>
    have hheld' : held.drop b = taken.drop b ++ held₀ := by
      rw [hheld, List.drop_append_of_le_length (hlength ▸ hp.2.1)]
    exact ih hp.2.2 hs hnotes hheld' (by simp [hlength])
      fun l hl => htaken l (List.mem_of_mem_drop hl)
  | unmark next ih =>
    obtain ⟨a, rfl⟩ := hs
    exact ⟨hnotes, taken, hheld, htaken⟩
  | commit next ih => exact hs.elim
  | rollback next ih => exact hs.elim

/-- Steady work keeps to a conduct that allows its locks, whatever it has found by then. -/
theorem Work.takes {W : S.Write → Prop} {L : S.Lock → Prop} {p : Prog S α} (hp : p.Work W)
    (hs : p.SteadyToEnd L)
    (hasks : ∀ notes' held', Above L notes held notes' held' → ∀ l, L l → C.asks notes' held' l) :
    p.Takes C (fun _ notes' held' => Above L notes held notes' held') notes held :=
  Inner.takes hp hs hasks (List.Subset.refl _) rfl rfl fun _ h => absurd h List.not_mem_nil

end

end Prog

/-! ## Notes beside a run -/

/-- What each session has found so far in its transaction, the latest note of it first. -/
abbrev Notes (S : Schema) := List (Nat × List S.Lock)

def Notes.of (F : Notes S) (i : Nat) : List S.Lock := (F.lookup i).getD []

@[simp] theorem Notes.of_nil (i : Nat) : Notes.of (S := S) [] i = [] := rfl

@[simp] theorem Notes.of_cons_self (F : Notes S) (i : Nat) (notes : List S.Lock) :
    Notes.of ((i, notes) :: F) i = notes := by
  simp [Notes.of]

theorem Notes.of_cons_ne (F : Notes S) {i j : Nat} (notes : List S.Lock) (h : j ≠ i) :
    Notes.of ((i, notes) :: F) j = F.of j := by
  rw [Notes.of, List.lookup_cons, beq_false_of_ne h]
  rfl

/-- The notes of a client after its next statement. -/
def Client.noted (c : Client S) (C : Conduct S) (d : S.Db) (notes : List S.Lock) : List S.Lock :=
  match c.prog with
  | .read _ _ => C.found notes (S.replay c.log d) ++ notes
  | .pure _ | .fail _ | .commit _ | .rollback _ => []
  | _ => notes

namespace System

/-- The notes after an event. -/
def noted (C : Nat → Conduct S) (s : System S) (F : Notes S) : Event → Notes S
  | .kill i => (i, []) :: F
  | .run i => match s.clients[i]? with
    | some c => (i, c.noted (C i) s.db (F.of i)) :: F
    | none => F

/-- Every client keeps to its conduct from here on. -/
def Keeps (C : Nat → Conduct S) (F : Notes S) (s : System S) : Prop :=
  ∀ (i : Nat) (c : Client S), s.clients[i]? = some c →
    c.prog.Takes (C i) (fun _ _ _ => True) (F.of i) c.held

/-- The locks that a client holds. -/
def heldBy (s : System S) (i : Nat) : List S.Lock := ((s.clients[i]?).map (·.held)).getD []

theorem mem_heldBy {s : System S} {i : Nat} {l : S.Lock} : l ∈ s.heldBy i ↔ s.Holds i l := by
  unfold heldBy Holds
  cases s.clients[i]? <;> simp

section

variable {C : Nat → Conduct S} {F : Notes S} {s s' : System S} {e : Event}

/-- A lock that is asked for is one that the conduct allows. -/
theorem Keeps.asks (h : s.Keeps C F) {i : Nat} {l : S.Lock} (hasks : s.Asks i l) :
    (C i).asks (F.of i) (s.heldBy i) l := by
  obtain ⟨c, next, hc, hprog⟩ := hasks
  have htakes := h i c hc
  rw [hprog] at htakes
  unfold heldBy
  rw [hc]
  exact htakes.1

/-- A statement leaves its client keeping to the conduct, with what it has found noted. -/
theorem takes_advance {C : Conduct S} {c c' : Client S} {d d' : S.Db} {n n' : Nat}
    {free : S.Lock → Bool} {notes : List S.Lock}
    (h : c.prog.Takes C (fun _ _ _ => True) notes c.held)
    (hadvance : c.advance d n free = some (c', d', n')) :
    c'.prog.Takes C (fun _ _ _ => True) (c.noted C d notes) c'.held := by
  obtain ⟨prog, held, marks, log⟩ := c
  cases prog with
  | lock l next =>
    simp only [Client.advance] at hadvance
    split at hadvance
    · cases hadvance
      exact h.2
    · cases hadvance
  | pure a =>
    cases hadvance
    trivial
  | fail e =>
    cases hadvance
    trivial
  | read marks' next =>
    cases hadvance
    exact h _
  | fresh next =>
    cases hadvance
    exact h _
  | write w next =>
    cases hadvance
    exact h
  | undo a b next =>
    cases hadvance
    exact h
  | unmark next =>
    cases hadvance
    exact h
  | commit next =>
    cases hadvance
    exact h
  | rollback next =>
    cases hadvance
    exact h

/-- One client of a system with one client replaced: that one, or an old one. -/
theorem getElem?_of_set {i j : Nat} {c c' : Client S} (hset : s'.clients = s.clients.set i c')
    (hc : s'.clients[j]? = some c) : j = i ∧ c = c' ∨ j ≠ i ∧ s.clients[j]? = some c := by
  rw [hset, List.getElem?_set] at hc
  by_cases hij : i = j
  · rw [if_pos hij] at hc
    split at hc
    · exact Or.inl ⟨hij.symm, (Option.some.inj hc).symm⟩
    · cases hc
  · rw [if_neg hij] at hc
    exact Or.inr ⟨Ne.symm hij, hc⟩

variable [DecidableEq S.Lock]

/-- Every event leaves every client keeping to its conduct. -/
theorem Keeps.step (h : s.Keeps C F) (hstep : s.step e = some s') :
    s'.Keeps C (s.noted C F e) := by
  intro j c hc
  cases e with
  | kill i =>
    obtain ⟨rfl, rfl⟩ | ⟨hne, hold⟩ := getElem?_of_set (step_kill hstep).2.2 hc
    · trivial
    · rw [noted, Notes.of_cons_ne F _ hne]
      exact h j c hold
  | run i =>
    obtain ⟨c₀, c₁, hc₀, hadvance, hclients⟩ := step_run hstep
    simp only [noted, hc₀]
    obtain ⟨rfl, rfl⟩ | ⟨hne, hold⟩ := getElem?_of_set hclients hc
    · rw [Notes.of_cons_self]
      exact takes_advance (h j c₀ hc₀) hadvance
    · rw [Notes.of_cons_ne F _ hne]
      exact h j c hold

/-- `P` holds of the notes and the state, now and after every event of the run. -/
def Along (C : Nat → Conduct S) (P : Notes S → System S → Prop) :
    Notes S → System S → List Event → Prop
  | F, s, [] => P F s
  | F, s, e :: es => P F s ∧ ∀ s', s.step e = some s' → Along C P (s.noted C F e) s' es

instance decidableAlong (C : Nat → Conduct S) (P : Notes S → System S → Prop)
    [∀ F s, Decidable (P F s)] : ∀ F s es, Decidable (Along C P F s es)
  | F, s, [] => inferInstanceAs (Decidable (P F s))
  | F, s, e :: es =>
    have : Decidable (∀ s', s.step e = some s' → Along C P (s.noted C F e) s' es) :=
      match s.step e with
      | none => isTrue fun _ h => nomatch h
      | some t =>
        have := decidableAlong C P (s.noted C F e) t es
        decidable_of_iff (Along C P (s.noted C F e) t es)
          ⟨fun hall _ h => Option.some.inj h ▸ hall, fun hall => hall t rfl⟩
    inferInstanceAs (Decidable (P F s ∧ _))

/-- **Every session keeps to its conduct** in every state of a run, so what follows from that and
from a condition holds wherever the condition does. -/
theorem Keeps.throughout {P : Notes S → System S → Prop} {Q : System S → Prop}
    (h : ∀ F s, s.Exclusive → s.Keeps C F → P F s → Q s) :
    ∀ {es : List Event} {F : Notes S} {s : System S}, s.Exclusive → s.Keeps C F →
      Along C P F s es → s.Throughout Q es
  | [], F, s, hs, hkeeps, hp => h F s hs hkeeps hp
  | _ :: _, F, s, hs, hkeeps, hp => ⟨h F s hs hkeeps hp.1, fun s' hstep =>
      Keeps.throughout h (exclusive_step hs hstep) (hkeeps.step hstep) (hp.2 s' hstep)⟩

end

end System
end Store
