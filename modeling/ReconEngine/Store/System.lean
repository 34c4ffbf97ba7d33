import ReconEngine.Store.Prog
import Mathlib.Logic.Relation

/-!
# Several clients over one store

The interleaved meaning of the programs of `Store/Prog.lean`: any number of clients run over one
committed store, one statement at a time and in any order. A read sees the committed store under
the client's own writes, as it stands when the statement runs (READ COMMITTED); a lock is granted
when no other client holds it and is kept to the end of the transaction; a commit applies the log
and gives the locks back. A client may be lost at any moment, which rolls its transaction back.

A run is a list of events. `System.run` computes the state it leads to, so a failing schedule is
a finite list that can be evaluated.

**What it does not establish.** Isolation is that of READ COMMITTED, statement by statement; a
statement itself is one step, also where the database would let another session in between. Which of
two waiting clients goes first is left open, and so is what a database does about a deadlock.
-/

set_option autoImplicit false

namespace Store

/-- A client in the middle of its work: what it still has to do, the locks it holds, what it
relies on without a lock, and the writes of its open transaction. -/
structure Client (S : Schema) where
  prog : Prog S Unit
  held : List S.Lock := []
  marks : List S.Mark := []
  log : List S.Write := []

/-- The committed store, the next unused row identifier and the clients. -/
structure System (S : Schema) where
  db : S.Db
  supply : Nat
  clients : List (Client S)

/-- What can happen next: a client runs its next statement, or its connection is lost. -/
inductive Event where
  | run (i : Nat)
  | kill (i : Nat)
deriving DecidableEq, Repr

def Event.client : Event → Nat
  | .run i => i
  | .kill i => i

variable {S : Schema}

/-- A client with nothing left to do and nothing open. -/
def Client.done : Client S := { prog := .pure () }

/-- The client's next statement over the store `d`, when the locks it may have are `free`. A
client that has ended, with a value or with a failure, closes its session. -/
def Client.advance (c : Client S) (d : S.Db) (n : Nat) (free : S.Lock → Bool) :
    Option (Client S × S.Db × Nat) :=
  match c.prog with
  | .pure _ => some (.done, d, n)
  | .fail _ => some (.done, d, n)
  | .read marks next =>
    some ({ c with prog := next (S.replay c.log d), marks := marks (S.replay c.log d) ++ c.marks },
      d, n)
  | .lock l next =>
    if free l then some ({ c with prog := next, held := l :: c.held }, d, n) else none
  | .fresh next => some ({ c with prog := next n }, d, n + 1)
  | .write w next => some ({ c with prog := next, log := c.log ++ [w] }, d, n)
  | .undo a b next =>
    some ({ c with prog := next, log := c.log.take (c.log.length - a), held := c.held.drop b }, d, n)
  | .unmark next => some ({ c with prog := next, marks := c.marks.filter fun m => !S.transient m }, d, n)
  | .commit next =>
    some ({ prog := next, marks := c.marks.filter fun m => !S.transient m }, S.replay c.log d, n)
  | .rollback next =>
    some ({ prog := next, marks := c.marks.filter fun m => !S.transient m }, d, n)

/-- A lock that a client holds after a statement it held before, or was free to take. -/
theorem Client.advance_held {c c' : Client S} {d d' : S.Db} {n n' : Nat} {free : S.Lock → Bool}
    (h : c.advance d n free = some (c', d', n')) : ∀ l ∈ c'.held, l ∈ c.held ∨ free l = true := by
  obtain ⟨prog, held, marks, log⟩ := c
  intro l hl
  cases prog with
  | lock l' next =>
    simp only [Client.advance] at h
    split at h
    · rename_i hfree
      cases h
      obtain rfl | hold := List.mem_cons.mp hl
      · exact Or.inr hfree
      · exact Or.inl hold
    · cases h
  | undo a b next =>
    cases h
    exact Or.inl (List.mem_of_mem_drop hl)
  | pure a =>
    cases h
    cases hl
  | fail e =>
    cases h
    cases hl
  | commit next =>
    cases h
    cases hl
  | rollback next =>
    cases h
    cases hl
  | read marks next =>
    cases h
    exact Or.inl hl
  | fresh next =>
    cases h
    exact Or.inl hl
  | write w next =>
    cases h
    exact Or.inl hl
  | unmark next =>
    cases h
    exact Or.inl hl

namespace System

/-- Client `j` holds the lock `l`. -/
def Holds (s : System S) (j : Nat) (l : S.Lock) : Prop :=
  ∃ c, s.clients[j]? = some c ∧ l ∈ c.held

/-- A client that holds a lock after a step of another one held it before. -/
theorem holds_set {s s' : System S} {i j : Nat} {c' : Client S} {l : S.Lock}
    (hcl : s'.clients = s.clients.set i c') (h : s'.Holds j l) :
    j = i ∧ l ∈ c'.held ∨ j ≠ i ∧ s.Holds j l := by
  obtain ⟨c, hc, hl⟩ := h
  rw [hcl, List.getElem?_set] at hc
  by_cases hij : i = j
  · rw [if_pos hij] at hc
    split at hc
    · cases hc
      exact Or.inl ⟨hij.symm, hl⟩
    · cases hc
  · rw [if_neg hij] at hc
    exact Or.inr ⟨Ne.symm hij, c, hc, hl⟩

variable [DecidableEq S.Lock]

/-- No client but `i` holds the lock `l`. -/
def free (s : System S) (i : Nat) (l : S.Lock) : Bool :=
  s.clients.zipIdx.all fun cj => cj.2 == i || !cj.1.held.contains l

/-- A lock is free for a client when no other one holds it. -/
theorem free_iff {s : System S} {i : Nat} {l : S.Lock} :
    s.free i l = true ↔ ∀ j, s.Holds j l → j = i := by
  simp only [free, List.all_eq_true, Bool.or_eq_true, beq_iff_eq, Bool.not_eq_true',
    Prod.forall, List.mem_zipIdx_iff_getElem?]
  constructor
  · rintro h j ⟨c, hc, hl⟩
    rcases h c j hc with hj | hn
    · exact hj
    · rw [List.contains_iff_mem.mpr hl] at hn
      cases hn
  · intro h c j hc
    by_cases hl : l ∈ c.held
    · exact Or.inl (h j ⟨c, hc, hl⟩)
    · exact Or.inr (by simpa using hl)

/-- The state after an event; `none` when the client does not exist or has to wait. -/
def step (s : System S) : Event → Option (System S)
  | .run i => do
    let c ← s.clients[i]?
    let (c', d, n) ← c.advance s.db s.supply (s.free i)
    some { db := d, supply := n, clients := s.clients.set i c' }
  | .kill i => some { s with clients := s.clients.set i .done }

/-- The state a run leads to. -/
def run (s : System S) : List Event → Option (System S)
  | [] => some s
  | e :: es => (s.step e).bind fun s' => s'.run es

/-- Nothing that another client has marked is changed by any step of the run. -/
def Stable (same : S.Mark → S.Db → S.Db → Prop) : System S → List Event → Prop
  | _, [] => True
  | s, e :: es => ∀ s', s.step e = some s' →
      (∀ j c, j ≠ e.client → s.clients[j]? = some c → ∀ m ∈ c.marks, same m s.db s'.db) ∧
        s'.Stable same es

/-- A client that moves changes its own place in the list, the store and the supply. -/
theorem step_run {s s' : System S} {i : Nat} (h : s.step (.run i) = some s') :
    ∃ c c', s.clients[i]? = some c ∧
      c.advance s.db s.supply (s.free i) = some (c', s'.db, s'.supply) ∧
      s'.clients = s.clients.set i c' := by
  simp only [step, Option.bind_eq_bind, Option.bind_eq_some_iff, Option.some.injEq] at h
  obtain ⟨c, hc, ⟨c', d, n⟩, hadv, rfl⟩ := h
  exact ⟨c, c', hc, hadv, rfl⟩

/-- A client that is lost leaves the store as it is. -/
theorem step_kill {s s' : System S} {i : Nat} (h : s.step (.kill i) = some s') :
    s'.db = s.db ∧ s'.supply = s.supply ∧ s'.clients = s.clients.set i .done := by
  cases h
  exact ⟨rfl, rfl, rfl⟩

theorem length_step {s s' : System S} {e : Event} (h : s.step e = some s') :
    s'.clients.length = s.clients.length := by
  cases e with
  | kill i => rw [(step_kill h).2.2, List.length_set]
  | run i =>
    obtain ⟨c, c', -, -, hcl⟩ := step_run h
    rw [hcl, List.length_set]

/-- A property of states that every step keeps holds after every run that respects the marks. -/
theorem stable_induction {same : S.Mark → S.Db → S.Db → Prop} {I : System S → Prop}
    (hstep : ∀ s e s', I s → s.step e = some s' →
      (∀ j c, j ≠ e.client → s.clients[j]? = some c → ∀ m ∈ c.marks, same m s.db s'.db) → I s') :
    ∀ (es : List Event) {s s' : System S}, I s → s.Stable same es → s.run es = some s' → I s'
  | [], s, s', hs, _, h => by cases h; exact hs
  | e :: es, s, s', hs, hst, h => by
    obtain ⟨t, ht, hrest⟩ := Option.bind_eq_some_iff.mp h
    exact stable_induction hstep es (hstep s e t hs ht (hst t ht).1) (hst t ht).2 hrest

/-- A run that respects the marks does so up to any state it reaches, and from there on. -/
theorem stable_append {same : S.Mark → S.Db → S.Db → Prop} :
    ∀ {es es' : List Event} {s t : System S}, s.Stable same (es ++ es') → s.run es = some t →
      s.Stable same es ∧ t.Stable same es'
  | [], _, s, t, h, hrun => by cases hrun; exact ⟨trivial, h⟩
  | e :: es, es', s, t, h, hrun => by
    obtain ⟨s', hstep, hrest⟩ := Option.bind_eq_some_iff.mp hrun
    refine ⟨fun u hu => ⟨(h u hu).1, ?_⟩, (stable_append (h s' hstep).2 hrest).2⟩
    cases hstep.symm.trans hu
    exact (stable_append (h s' hstep).2 hrest).1

/-- Marks that stand for nothing are respected by every run. -/
theorem stable_of_same {same : S.Mark → S.Db → S.Db → Prop} (h : ∀ m d d', same m d d') :
    ∀ (es : List Event) (s : System S), s.Stable same es
  | [], _ => trivial
  | _ :: es, _ => fun s' _ => ⟨fun _ _ _ _ m _ => h m _ _, stable_of_same h es s'⟩

/-- At every step of the run, no client but the one that steps relies on anything. -/
def takesTurns : System S → List Event → Bool
  | _, [] => true
  | s, e :: es =>
    (s.clients.zipIdx.all fun cj => cj.2 == e.client || cj.1.marks.isEmpty) &&
      match s.step e with
      | none => true
      | some s' => s'.takesTurns es

/-- Clients that take turns respect every mark. -/
theorem stable_of_takesTurns (same : S.Mark → S.Db → S.Db → Prop) :
    ∀ (es : List Event) (s : System S), s.takesTurns es = true → s.Stable same es
  | [], _, _ => trivial
  | e :: es, s, h => by
    intro s' hstep
    unfold takesTurns at h
    rw [Bool.and_eq_true, hstep] at h
    refine ⟨fun j c hj hc m hm => ?_, stable_of_takesTurns same es s' h.2⟩
    have hc' := List.all_eq_true.mp h.1 (c, j) (List.mem_zipIdx_iff_getElem?.mpr hc)
    simp only [Bool.or_eq_true, beq_iff_eq, List.isEmpty_iff] at hc'
    rw [hc'.resolve_left hj] at hm
    exact absurd hm List.not_mem_nil

/-- Client `i` is about to write `w`. -/
def Writes (s : System S) (i : Nat) (w : S.Write) : Prop :=
  ∃ c next, s.clients[i]? = some c ∧ c.prog = .write w next

/-- `P` holds in every state of the run. -/
def Throughout (P : System S → Prop) : System S → List Event → Prop
  | s, [] => P s
  | s, e :: es => P s ∧ ∀ s', s.step e = some s' → s'.Throughout P es

/-! ## Locks -/

/-- No lock has two holders. -/
def Exclusive (s : System S) : Prop := ∀ i j l, s.Holds i l → s.Holds j l → i = j

theorem exclusive_step {s s' : System S} {e : Event} (hs : s.Exclusive)
    (h : s.step e = some s') : s'.Exclusive := by
  cases e with
  | kill i =>
    intro j j' l hj hj'
    have hcl := (step_kill h).2.2
    obtain ⟨-, hl⟩ | ⟨-, hj⟩ := holds_set hcl hj
    · cases hl
    · obtain ⟨-, hl⟩ | ⟨-, hj'⟩ := holds_set hcl hj'
      · cases hl
      · exact hs j j' l hj hj'
  | run i =>
    obtain ⟨c, c', hc, hadv, hcl⟩ := step_run h
    -- A lock the client holds now was its own before, or was free for it to take.
    have hown : ∀ l ∈ c'.held, ∀ j, s.Holds j l → j = i := by
      intro l hl j hj
      obtain hin | hfree := Client.advance_held hadv l hl
      · exact hs j i l hj ⟨c, hc, hin⟩
      · exact free_iff.mp hfree j hj
    intro j j' l hj hj'
    obtain ⟨rfl, hl⟩ | ⟨hne, hj⟩ := holds_set hcl hj
    · obtain ⟨rfl, -⟩ | ⟨hne', hj'⟩ := holds_set hcl hj'
      · rfl
      · exact absurd (hown l hl j' hj') hne'
    · obtain ⟨rfl, hl⟩ | ⟨-, hj'⟩ := holds_set hcl hj'
      · exact absurd (hown l hl j hj) hne
      · exact hs j j' l hj hj'

/-! ## Waiting -/

/-- Client `i` asks for the lock `l`. -/
def Asks (s : System S) (i : Nat) (l : S.Lock) : Prop :=
  ∃ c next, s.clients[i]? = some c ∧ c.prog = .lock l next

/-- Client `i` waits for a lock that client `j` holds. -/
def Waits (s : System S) (i j : Nat) : Prop :=
  i ≠ j ∧ ∃ l, s.Asks i l ∧ s.Holds j l

/-- A cycle of clients each waiting for a lock the next one holds. -/
def Deadlock (s : System S) : Prop := ∃ i, Relation.TransGen s.Waits i i

end System
end Store
