import ReconEngine.Store.Protocol

/-!
# Relying on what was read

A read may mark what its client goes on to rely on without a lock. **Steady work** gives up none of
its marks, so what was marked before it is the same at each of its writes: the steps of the others
respect the marks, and the client itself commits nothing. Which locks it takes is said beside.

Not every client has to answer for its writes. `Protocol.lenient` asks nothing of them; among
clients that keep to it, one that keeps to the whole protocol goes on doing so (`Ready.knows_run`).

**What it does not establish.** A mark stands for what was read and not for its cause: another row
that would have been read had it been there is not marked, unless the mark says so.
-/

set_option autoImplicit false

namespace Store

variable {S : Schema} {α β ι σ : Type}

namespace Prog

/-! ## Steady work -/

/-- `p` gives up no mark, and locks only what is in `L`. -/
def Steady (L : S.Lock → Prop) : Prog S α → Prop
  | .pure _ => True
  | .fail _ => True
  | .read _ next => ∀ d, (next d).Steady L
  | .lock l next => L l ∧ next.Steady L
  | .fresh next => ∀ m, (next m).Steady L
  | .write _ next => next.Steady L
  | .undo _ _ next => next.Steady L
  | .unmark _ => False
  | .commit _ => False
  | .rollback _ => False

/-- The same, but that `p` may give up its marks as the last thing it does. -/
def SteadyToEnd (L : S.Lock → Prop) : Prog S α → Prop
  | .pure _ => True
  | .fail _ => True
  | .read _ next => ∀ d, (next d).SteadyToEnd L
  | .lock l next => L l ∧ next.SteadyToEnd L
  | .fresh next => ∀ m, (next m).SteadyToEnd L
  | .write _ next => next.SteadyToEnd L
  | .undo _ _ next => next.SteadyToEnd L
  | .unmark next => ∃ a, next = .pure a
  | .commit _ => False
  | .rollback _ => False

section

variable {L : S.Lock → Prop} {p : Prog S α}

@[simp] theorem steady_pure (a : α) : (Prog.pure a : Prog S α).Steady L := trivial
@[simp] theorem steady_fail (e : S.Err) : (Prog.fail e : Prog S α).Steady L := trivial
@[simp] theorem steady_view : (view : Prog S S.Db).Steady L := fun _ => trivial
@[simp] theorem steady_viewing (marks : S.Db → List S.Mark) : (viewing marks).Steady L :=
  fun _ => trivial
@[simp] theorem steady_lockRow {l : S.Lock} : (lockRow l).Steady L ↔ L l := and_iff_left trivial
@[simp] theorem steady_newId : (newId : Prog S Nat).Steady L := fun _ => trivial
@[simp] theorem steady_put (w : S.Write) : (put w).Steady L := trivial

@[simp] theorem steady_require (c : Bool) (e : S.Err) : (require c e : Prog S Unit).Steady L := by
  cases c <;> trivial

@[simp] theorem steady_ofExcept (x : Except S.Err α) : (ofExcept x : Prog S α).Steady L := by
  cases x <;> trivial

/-- What follows may count on what every value of the first part satisfies. -/
theorem Steady.bind_returns {f : α → Prog S β} {Q : α → Prop} (hp : p.Steady L)
    (hr : p.Returns Q) (hf : ∀ a, Q a → (f a).Steady L) : (p.bind f).Steady L := by
  induction p with
  | pure a => exact hf a hr
  | fail e => trivial
  | read marks next ih => exact fun d => ih d (hp d) (hr d)
  | lock l next ih => exact ⟨hp.1, ih hp.2 hr⟩
  | fresh next ih => exact fun m => ih m (hp m) (hr m)
  | write w next ih => exact ih hp hr
  | undo a b next ih => exact ih hp hr
  | unmark next ih => exact hp.elim
  | commit next ih => exact hp.elim
  | rollback next ih => exact hp.elim

theorem Steady.bind {f : α → Prog S β} (hp : p.Steady L) (hf : ∀ a, (f a).Steady L) :
    (p.bind f).Steady L := hp.bind_returns (returns_true p) fun a _ => hf a

theorem Steady.attemptFrom {handler : S.Err → Prog S α} (hp : p.Steady L)
    (hh : ∀ e, (handler e).Steady L) (n k : Nat) : (attemptFrom n k p handler).Steady L := by
  induction p generalizing n k with
  | pure a => trivial
  | fail e => exact hh e
  | read marks next ih => exact fun d => ih d (hp d) n k
  | lock l next ih => exact ⟨hp.1, ih hp.2 n (k + 1)⟩
  | fresh next ih => exact fun m => ih m (hp m) n k
  | write w next ih => exact ih hp (n + 1) k
  | undo a b next ih => exact ih hp (n - a) (k - b)
  | unmark next ih => exact hp.elim
  | commit next ih => exact hp.elim
  | rollback next ih => exact hp.elim

theorem Steady.attempt {handler : S.Err → Prog S α} (hp : p.Steady L)
    (hh : ∀ e, (handler e).Steady L) : (p.attempt handler).Steady L := hp.attemptFrom hh 0 0

theorem Steady.foldlM {body : σ → ι → Prog S σ} :
    ∀ (items : List ι) (st : σ), (∀ st, ∀ i ∈ items, (body st i).Steady L) →
      (items.foldlM body st).Steady L
  | [], st, _ => steady_pure st
  | i :: items, st, h => by
    rw [List.foldlM_cons]
    exact (h st i List.mem_cons_self).bind fun st' =>
      Steady.foldlM items st' fun st'' j hj => h st'' j (List.mem_cons_of_mem i hj)

/-- A loop whose turns keep what they count on of its state. -/
theorem Steady.foldlM_returns {body : σ → ι → Prog S σ} {I : σ → Prop} :
    ∀ (items : List ι) (st : σ), I st →
      (∀ st, I st → ∀ i ∈ items, (body st i).Steady L ∧ (body st i).Returns I) →
      (items.foldlM body st).Steady L
  | [], st, _, _ => steady_pure st
  | i :: items, st, hst, h => by
    rw [List.foldlM_cons]
    obtain ⟨hsteady, hreturns⟩ := h st hst i List.mem_cons_self
    exact hsteady.bind_returns hreturns fun st' hst' =>
      Steady.foldlM_returns items st' hst' fun st'' h'' j hj =>
        h st'' h'' j (List.mem_cons_of_mem i hj)

/-- Work that is steady throughout is steady to its end. -/
theorem Steady.steadyToEnd (h : p.Steady L) : p.SteadyToEnd L := by
  induction p with
  | pure a => trivial
  | fail e => trivial
  | read marks next ih => exact fun d => ih d (h d)
  | lock l next ih => exact ⟨h.1, ih h.2⟩
  | fresh next ih => exact fun m => ih m (h m)
  | write w next ih => exact ih h
  | undo a b next ih => exact ih h
  | unmark next ih => exact h.elim
  | commit next ih => exact h.elim
  | rollback next ih => exact h.elim

/-- Steady work, then giving up the marks. -/
theorem Steady.toEnd (h : p.Steady L) : (p.bind fun a => .unmark (.pure a)).SteadyToEnd L := by
  induction p with
  | pure a => exact ⟨a, rfl⟩
  | fail e => trivial
  | read marks next ih => exact fun d => ih d (h d)
  | lock l next ih => exact ⟨h.1, ih h.2⟩
  | fresh next ih => exact fun m => ih m (h m)
  | write w next ih => exact ih h
  | undo a b next ih => exact ih h
  | unmark next ih => exact h.elim
  | commit next ih => exact h.elim
  | rollback next ih => exact h.elim

/-- What is given up at the end was kept before. -/
theorem SteadyToEnd.steady (h : (p.bind fun a => .unmark (.pure a)).SteadyToEnd L) :
    p.Steady L := by
  induction p with
  | pure a => trivial
  | fail e => trivial
  | read marks next ih => exact fun d => ih d (h d)
  | lock l next ih => exact ⟨h.1, ih h.2⟩
  | fresh next ih => exact fun m => ih m (h m)
  | write w next ih => exact ih h
  | undo a b next ih => exact ih h
  | unmark next ih =>
    obtain ⟨a, ha⟩ := h
    cases next <;> cases ha
  | commit next ih => exact h
  | rollback next ih => exact h

end

end Prog

namespace Protocol

variable {P : Protocol S} {p : Prog S α} {k : Local S}

/-- Steady work may write what is allowed as long as the mark is respected. -/
theorem Follows.steady {W : S.Write → Prop} {n m : Nat} {L : S.Lock → Prop} (hp : p.Inner W n m)
    (hs : p.Steady L) (mark : S.Mark) (d₀ : S.Db) (hW : ∀ d w, P.same mark d₀ d → W w → P.writes d w)
    (hmark : mark ∈ k.marks) (hsame : P.same mark d₀ k.db) :
    P.Follows p (fun _ _ => True) (fun _ _ => True) k := by
  induction p generalizing n m k with
  | pure a => trivial
  | fail e => trivial
  | read marks next ih =>
    exact fun n' d hl => ih _ (hp _) (hs _) (List.mem_append_right _ hmark)
      (P.same_trans _ _ _ _ hsame (hl.same _ hmark))
  | lock l next ih =>
    exact fun n' d hl => ih hp hs.2 hmark (P.same_trans _ _ _ _ hsame (hl.same _ hmark))
  | fresh next ih =>
    exact fun n' d hl => ih _ (hp _) (hs _) hmark (P.same_trans _ _ _ _ hsame (hl.same _ hmark))
  | write w next ih =>
    exact ⟨fun n' d hl => hW d w (P.same_trans _ _ _ _ hsame (hl.same _ hmark)) hp.1,
      ih hp.2 hs hmark hsame⟩
  | undo a b next ih => exact ih hp.2.2 hs hmark hsame
  | unmark next ih => exact hs.elim
  | commit next ih => exact hs.elim
  | rollback next ih => exact hs.elim

/-! ## Clients that need not answer for their writes -/

/-- The protocol, less what it asks of writes. -/
def lenient (P : Protocol S) : Protocol S := { P with writes := fun _ _ => True }

/-- Without a condition on writes, others may do what they may do anyway. -/
theorem later_lenient {n : Nat} {d : S.Db} : P.lenient.Later k n d ↔ P.Later k n d :=
  ⟨fun h => ⟨h.supply, h.inv, h.agree, h.same⟩, fun h => ⟨h.supply, h.inv, h.agree, h.same⟩⟩

/-- Who follows the protocol follows the lenient one. -/
theorem Follows.lenient {Q : α → Local S → Prop} {E : S.Err → Local S → Prop}
    (h : P.Follows p Q E k) : P.lenient.Follows p Q E k := by
  induction p generalizing k with
  | pure a => exact h
  | fail e => exact h
  | read marks next ih => exact fun n d hl => ih _ (h n d (later_lenient.mp hl))
  | lock l next ih => exact fun n d hl => ih (h n d (later_lenient.mp hl))
  | fresh next ih => exact fun n d hl => ih _ (h n d (later_lenient.mp hl))
  | write w next ih => exact ⟨fun _ _ _ => trivial, ih h.2⟩
  | undo a b next ih => exact ih h
  | unmark next ih => exact ih h
  | commit next ih =>
    intro n d hl
    obtain ⟨hagree, hinv, hmoves, hnext⟩ := h n d (later_lenient.mp hl)
    exact ⟨hagree, hinv, hmoves, ih hnext⟩
  | rollback next ih => exact ih h

theorem Knows.lenient {c : Client S} {n : Nat} {d : S.Db} (h : P.Knows c n d) :
    P.lenient.Knows c n d := by
  obtain ⟨n₀, d₀, hlater, hfollows⟩ := h
  exact ⟨n₀, d₀, later_lenient.mpr hlater, hfollows.lenient⟩

variable [DecidableEq S.Lock]

/-- Among lenient clients, one that keeps to the whole protocol still does after a step. -/
theorem Ready.knows_step {s s' : System S} {e : Event} (hs : P.lenient.Ready s)
    (h : s.step e = some s')
    (hmarks : ∀ j c, j ≠ e.client → s.clients[j]? = some c → ∀ m ∈ c.marks, P.same m s.db s'.db)
    {i : Nat} {c : Client S} (hc : s.clients[i]? = some c) (hk : P.Knows c s.supply s.db) :
    ∃ c', s'.clients[i]? = some c' ∧ P.Knows c' s'.supply s'.db := by
  by_cases hi : i = e.client
  · subst hi
    exact hk.step h hc
  · obtain ⟨n₀, d₀, hlater, hfollows⟩ := hk
    obtain ⟨hc', hlater'⟩ := hs.later_step h hmarks hi hc (later_lenient.mpr hlater)
    exact ⟨c, hc', n₀, d₀, later_lenient.mp hlater', hfollows⟩

/-- The same after a run that respects the marks. -/
theorem Ready.knows_run {s s' : System S} (hs : P.lenient.Ready s) (es : List Event)
    (hst : s.Stable P.same es) (h : s.run es = some s') {i : Nat} {c : Client S}
    (hc : s.clients[i]? = some c) (hk : P.Knows c s.supply s.db) :
    ∃ c', s'.clients[i]? = some c' ∧ P.Knows c' s'.supply s'.db := by
  have hboth := System.stable_induction
    (I := fun u => P.lenient.Ready u ∧
      ∃ c', u.clients[i]? = some c' ∧ P.Knows c' u.supply u.db)
    (fun u e u' hu hstep hmarks => by
      obtain ⟨hready, c', hc', hk'⟩ := hu
      exact ⟨(hready.step hstep hmarks).1, hready.knows_step hstep hmarks hc' hk'⟩)
    es ⟨hs, c, hc, hk⟩ hst h
  exact hboth.2

end Protocol
end Store
