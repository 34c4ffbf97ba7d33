import ReconEngine.Store.Prog

/-!
# Handlers and whole programs

`Prog.handle` catches a failure and gives nothing back: it is the handler around statements that
may commit, where `Prog.attempt` is the one around a savepoint. `Writes` and `Raises` bound what a
program writes and which errors it ends with over all the transactions it goes through, so that
they also speak of the programs that `Work` excludes.

**What it does not establish.** A handler that catches an error keeps what the program has committed
before it, and these rules say so; that this is what the caller wants is for the caller to show.
-/

set_option autoImplicit false

namespace Store.Prog

variable {S : Schema} {α β ι σ : Type}

/-- `p`, going on with the handler where it fails. -/
def handle : Prog S α → (S.Err → Prog S α) → Prog S α
  | .pure a, _ => .pure a
  | .fail e, handler => handler e
  | .read marks next, handler => .read marks fun d => (next d).handle handler
  | .lock l next, handler => .lock l (next.handle handler)
  | .fresh next, handler => .fresh fun m => (next m).handle handler
  | .write w next, handler => .write w (next.handle handler)
  | .undo a b next, handler => .undo a b (next.handle handler)
  | .unmark next, handler => .unmark (next.handle handler)
  | .commit next, handler => .commit (next.handle handler)
  | .rollback next, handler => .rollback (next.handle handler)

/-- A handler goes on from where the program failed. -/
theorem exec_handle (p : Prog S α) (handler : S.Err → Prog S α) (s : Session S) :
    (p.handle handler).exec s = match p.exec s with
      | (.ok a, s') => (.ok a, s')
      | (.error e, s') => (handler e).exec s' := by
  induction p generalizing s with
  | pure a => rfl
  | fail e => rfl
  | read marks next ih => exact ih s.view s
  | lock l next ih => exact ih s
  | fresh next ih => exact ih s.supply s.take
  | write w next ih => exact ih (s.write w)
  | undo n k next ih => exact ih (s.undo n)
  | unmark next ih => exact ih s
  | commit next ih => exact ih s.commit
  | rollback next ih => exact ih s.close

@[simp] theorem wp_handle {p : Prog S α} {handler : S.Err → Prog S α} {Q : α → Session S → Prop}
    {E : S.Err → Session S → Prop} {s : Session S} :
    (p.handle handler).wp Q E s ↔ p.wp Q (fun e s' => (handler e).wp Q E s') s := by
  unfold wp
  rw [exec_handle]
  rcases p.exec s with ⟨r, s'⟩
  cases r <;> exact Iff.rfl

/-! ## Reading an outcome off -/

section Outcome

variable {p : Prog S α} {s : Session S}

/-- What holds of every end holds of the one that is reached. -/
theorem wp.ends {P : Session S → Prop} (h : p.wp (fun _ s' => P s') (fun _ s' => P s') s) :
    P (p.exec s).2 := by
  unfold wp at h
  rcases he : p.exec s with ⟨r, s'⟩
  rw [he] at h
  cases r <;> exact h

/-- What is known of a failure, read off an execution that failed. -/
theorem wp.fails {Q : α → Session S → Prop} {E : S.Err → Session S → Prop} {e : S.Err}
    (h : p.wp Q E s) (he : (p.exec s).1 = .error e) : E e (p.exec s).2 := by
  unfold wp at h
  rcases hexec : p.exec s with ⟨r, s'⟩
  rw [hexec] at h he
  cases he
  exact h

/-- A program that cannot fail ends as it is said to. -/
theorem wp.succeeds {Q : α → Session S → Prop} (h : p.wp Q (fun _ _ => False) s) :
    ∃ a s', p.exec s = (.ok a, s') ∧ Q a s' := by
  unfold wp at h
  rcases he : p.exec s with ⟨r, s'⟩
  rw [he] at h
  cases r with
  | ok a => exact ⟨a, s', rfl, h⟩
  | error e => exact h.elim

end Outcome

/-! ## Loops that remember their turns -/

/-- A loop whose invariant speaks of the turns so far. -/
theorem wp_foldlM_turns {body : σ → ι → Prog S σ} {I : List ι → σ → Session S → Prop}
    {E : S.Err → Session S → Prop} {items : List ι}
    (turn : ∀ done i rest, items = done ++ i :: rest → ∀ st s, I done st s →
      (body st i).wp (I (done ++ [i])) E s)
    {st : σ} {s : Session S} (h : I [] st s) : (items.foldlM body st).wp (I items) E s := by
  have hrest : ∀ rest done, items = done ++ rest → ∀ st s, I done st s →
      (rest.foldlM body st).wp (I items) E s := by
    intro rest
    induction rest with
    | nil =>
      intro done heq st s hs
      rw [heq, List.append_nil]
      exact hs
    | cons i rest ih =>
      intro done heq st s hs
      rw [List.foldlM_cons, bind_eq, wp_bind]
      refine (turn done i rest heq st s hs).mono ?_ fun _ _ h => h
      intro st' s' hs'
      exact ih (done ++ [i]) (by simpa using heq) st' s' hs'
  exact hrest items [] rfl st s h

/-! ## Two programs with one outcome -/

section Congr

variable {s : Session S}

/-- Two binds agree when they go on alike from wherever their first part ends. -/
theorem exec_bind_congr {p : Prog S α} {f g : α → Prog S β}
    (h : p.wp (fun a s' => (f a).exec s' = (g a).exec s') (fun _ _ => True) s) :
    (p.bind f).exec s = (p.bind g).exec s := by
  rw [exec_bind, exec_bind]
  unfold wp at h
  rcases he : p.exec s with ⟨r, s'⟩
  rw [he] at h
  cases r with
  | ok a => exact h
  | error e => rfl

/-- Programs with one outcome go on alike. -/
theorem exec_bind_left {p q : Prog S α} (h : p.exec s = q.exec s) (f : α → Prog S β) :
    (p.bind f).exec s = (q.bind f).exec s := by
  rw [exec_bind, exec_bind, h]

theorem exec_handle_left {p q : Prog S α} (h : p.exec s = q.exec s)
    (handler : S.Err → Prog S α) : (p.handle handler).exec s = (q.handle handler).exec s := by
  rw [exec_handle, exec_handle, h]

/-- Two loops agree when their turns agree wherever an invariant of one of them holds. -/
theorem exec_foldlM_congr {body body' : σ → ι → Prog S σ} {I : Session S → Prop} :
    ∀ {items : List ι}, (∀ i ∈ items, ∀ st s, I s → (body st i).exec s = (body' st i).exec s ∧
        (body st i).wp (fun _ s' => I s') (fun _ _ => True) s) →
      ∀ (st : σ) {s : Session S}, I s →
        (items.foldlM body st).exec s = (items.foldlM body' st).exec s
  | [], _, _, _, _ => rfl
  | i :: items, turn, st, s, hs => by
    obtain ⟨hsame, hkeeps⟩ := turn i List.mem_cons_self st s hs
    rw [List.foldlM_cons, List.foldlM_cons, bind_eq, bind_eq, ← exec_bind_left hsame]
    refine exec_bind_congr (hkeeps.mono (fun st' s' hs' => ?_) fun _ _ _ => trivial)
    exact exec_foldlM_congr (fun j hj => turn j (List.mem_cons_of_mem i hj)) st' hs'

end Congr

/-- Identifiers are used up and never given back. -/
theorem supply_le_exec (p : Prog S α) (s : Session S) : s.supply ≤ (p.exec s).2.supply := by
  induction p generalizing s with
  | pure a => exact Nat.le_refl _
  | fail e => exact Nat.le_refl _
  | read marks next ih => exact ih s.view s
  | lock l next ih => exact ih s
  | fresh next ih => exact Nat.le_of_succ_le (ih s.supply s.take)
  | write w next ih => exact ih (s.write w)
  | undo n k next ih => exact ih (s.undo n)
  | unmark next ih => exact ih s
  | commit next ih => exact ih s.commit
  | rollback next ih => exact ih s.close

/-- No program gives an identifier back. -/
theorem wp_supply (p : Prog S α) (s : Session S) :
    p.wp (fun _ s' => s.supply ≤ s'.supply) (fun _ s' => s.supply ≤ s'.supply) s := by
  have h := supply_le_exec p s
  unfold wp
  rcases he : p.exec s with ⟨r, s'⟩
  rw [he] at h
  cases r <;> exact h

/-! ## The writes of a program -/

/-- Every write of the program satisfies `W`, whatever it reads. -/
def Writes (W : S.Write → Prop) : Prog S α → Prop
  | .pure _ => True
  | .fail _ => True
  | .read _ next => ∀ d, (next d).Writes W
  | .lock _ next => next.Writes W
  | .fresh next => ∀ m, (next m).Writes W
  | .write w next => W w ∧ next.Writes W
  | .undo _ _ next => next.Writes W
  | .unmark next => next.Writes W
  | .commit next => next.Writes W
  | .rollback next => next.Writes W

section Writes

variable {W : S.Write → Prop}

/-- Work writes what it may, seen as a whole program. -/
theorem Inner.writes {p : Prog S α} {n k : Nat} (h : p.Inner W n k) : p.Writes W := by
  induction p generalizing n k with
  | pure a => trivial
  | fail e => trivial
  | read marks next ih => exact fun d => ih d (h d)
  | lock l next ih => exact ih h
  | fresh next ih => exact fun m => ih m (h m)
  | write w next ih => exact ⟨h.1, ih h.2⟩
  | undo a b next ih => exact ih h.2.2
  | unmark next ih => exact ih h
  | commit next ih => exact h.elim
  | rollback next ih => exact h.elim

/-- A bound on the writes may be weakened. -/
theorem Writes.weaken {W' : S.Write → Prop} {p : Prog S α} (h : p.Writes W)
    (hW : ∀ w, W w → W' w) : p.Writes W' := by
  induction p with
  | pure a => trivial
  | fail e => trivial
  | read marks next ih => exact fun d => ih d (h d)
  | lock l next ih => exact ih h
  | fresh next ih => exact fun m => ih m (h m)
  | write w next ih => exact ⟨hW w h.1, ih h.2⟩
  | undo n k next ih => exact ih h
  | unmark next ih => exact ih h
  | commit next ih => exact ih h
  | rollback next ih => exact ih h

theorem Work.writes {p : Prog S α} (h : p.Work W) : p.Writes W := Inner.writes h

@[simp] theorem writes_pure (a : α) : (Prog.pure a : Prog S α).Writes W := trivial
@[simp] theorem writes_fail (e : S.Err) : (Prog.fail e : Prog S α).Writes W := trivial
@[simp] theorem writes_commitNow : (commitNow : Prog S Unit).Writes W := trivial
@[simp] theorem writes_rollbackNow : (rollbackNow : Prog S Unit).Writes W := trivial

/-- The writes of two parts, one after the other. -/
theorem Writes.bind {p : Prog S α} {f : α → Prog S β} (hp : p.Writes W)
    (hf : ∀ a, (f a).Writes W) : (p.bind f).Writes W := by
  induction p with
  | pure a => exact hf a
  | fail e => trivial
  | read marks next ih => exact fun d => ih d (hp d)
  | lock l next ih => exact ih hp
  | fresh next ih => exact fun m => ih m (hp m)
  | write w next ih => exact ⟨hp.1, ih hp.2⟩
  | undo n k next ih => exact ih hp
  | unmark next ih => exact ih hp
  | commit next ih => exact ih hp
  | rollback next ih => exact ih hp

/-- The writes of a program and its handler. -/
theorem Writes.handle {p : Prog S α} {handler : S.Err → Prog S α} (hp : p.Writes W)
    (hh : ∀ e, (handler e).Writes W) : (p.handle handler).Writes W := by
  induction p with
  | pure a => trivial
  | fail e => exact hh e
  | read marks next ih => exact fun d => ih d (hp d)
  | lock l next ih => exact ih hp
  | fresh next ih => exact fun m => ih m (hp m)
  | write w next ih => exact ⟨hp.1, ih hp.2⟩
  | undo n k next ih => exact ih hp
  | unmark next ih => exact ih hp
  | commit next ih => exact ih hp
  | rollback next ih => exact ih hp

theorem Writes.attempt {p : Prog S α} {handler : S.Err → Prog S α} (hp : p.Writes W)
    (hh : ∀ e, (handler e).Writes W) : (p.attempt handler).Writes W := by
  have hfrom : ∀ n k, (attemptFrom n k p handler).Writes W := by
    induction p with
    | pure a => exact fun _ _ => trivial
    | fail e => exact fun _ _ => hh e
    | read marks next ih => exact fun n k d => ih d (hp d) n k
    | lock l next ih => exact fun n k => ih hp n (k + 1)
    | fresh next ih => exact fun n k m => ih m (hp m) n k
    | write w next ih => exact fun n k => ⟨hp.1, ih hp.2 (n + 1) k⟩
    | undo a b next ih => exact fun n k => ih hp (n - a) (k - b)
    | unmark next ih => exact fun n k => ih hp n k
    | commit next ih => exact fun _ _ => ih hp 0 0
    | rollback next ih => exact fun _ _ => ih hp 0 0
  exact hfrom 0 0

/-- Where the committed store satisfies `C` and every write that is logged satisfies `W`, and such
writes keep `C`, both stay so. -/
theorem Writes.exec {C : S.Db → Prop} (hC : ∀ w d, W w → C d → C (S.apply w d)) {p : Prog S α}
    (hp : p.Writes W) {s : Session S} (hs : C s.committed) (hlog : ∀ w ∈ s.log, W w) :
    C (p.exec s).2.committed ∧ ∀ w ∈ (p.exec s).2.log, W w := by
  have hreplay : ∀ (log : List S.Write) (d : S.Db), (∀ w ∈ log, W w) → C d → C (S.replay log d) := by
    intro log
    induction log with
    | nil => exact fun _ _ hd => hd
    | cons w log ih =>
      intro d hw hd
      exact ih _ (fun w' hw' => hw w' (List.mem_cons_of_mem w hw'))
        (hC w d (hw w List.mem_cons_self) hd)
  induction p generalizing s with
  | pure a => exact ⟨hs, hlog⟩
  | fail e => exact ⟨hs, hlog⟩
  | read marks next ih => exact ih s.view (hp s.view) hs hlog
  | lock l next ih => exact ih hp hs hlog
  | fresh next ih => exact ih s.supply (hp s.supply) (s := s.take) hs hlog
  | write w next ih =>
    refine ih hp.2 (s := s.write w) hs fun w' hw' => ?_
    rcases List.mem_append.mp hw' with h | h
    · exact hlog w' h
    · exact List.mem_singleton.mp h ▸ hp.1
  | undo a b next ih =>
    exact ih hp (s := s.undo a) hs fun w hw => hlog w (List.mem_of_mem_take hw)
  | unmark next ih => exact ih hp hs hlog
  | commit next ih =>
    refine ih hp (s := s.commit) (hreplay s.log s.committed hlog hs) fun w hw => ?_
    exact absurd hw List.not_mem_nil
  | rollback next ih =>
    exact ih hp (s := s.close) hs fun w hw => absurd hw List.not_mem_nil

/-- What such a program keeps of the committed store, from an empty transaction on. -/
theorem Writes.wp_keeps {C : S.Db → Prop} (hC : ∀ w d, W w → C d → C (S.apply w d))
    {p : Prog S α} (hp : p.Writes W) {s : Session S} (hs : C s.committed) (hlog : s.log = []) :
    p.wp (fun _ s' => C s'.committed) (fun _ s' => C s'.committed) s := by
  have h := (hp.exec hC hs fun w hw => absurd (hlog ▸ hw) List.not_mem_nil).1
  unfold wp
  rcases he : p.exec s with ⟨r, s'⟩
  rw [he] at h
  cases r <;> exact h

end Writes

/-! ## The errors of a program -/

/-- Every error the program may end with satisfies `E`, whatever it reads. -/
def Raises (E : S.Err → Prop) : Prog S α → Prop
  | .pure _ => True
  | .fail e => E e
  | .read _ next => ∀ d, (next d).Raises E
  | .lock _ next => next.Raises E
  | .fresh next => ∀ m, (next m).Raises E
  | .write _ next => next.Raises E
  | .undo _ _ next => next.Raises E
  | .unmark next => next.Raises E
  | .commit next => next.Raises E
  | .rollback next => next.Raises E

section Raises

variable {E : S.Err → Prop}

@[simp] theorem raises_pure (a : α) : (Prog.pure a : Prog S α).Raises E := trivial
@[simp] theorem raises_view : (view : Prog S S.Db).Raises E := fun _ => trivial
@[simp] theorem raises_lockRow (l : S.Lock) : (lockRow l).Raises E := trivial
@[simp] theorem raises_newId : (newId : Prog S Nat).Raises E := fun _ => trivial
@[simp] theorem raises_put (w : S.Write) : (put w).Raises E := trivial
@[simp] theorem raises_rollbackNow : (rollbackNow : Prog S Unit).Raises E := trivial
@[simp] theorem raises_fail {e : S.Err} : (Prog.fail e : Prog S α).Raises E ↔ E e := Iff.rfl

theorem raises_require {c : Bool} {e : S.Err} (h : E e) :
    (require c e : Prog S Unit).Raises E := by
  cases c
  · exact h
  · trivial

theorem Raises.bind {p : Prog S α} {f : α → Prog S β} (hp : p.Raises E)
    (hf : ∀ a, (f a).Raises E) : (p.bind f).Raises E := by
  induction p with
  | pure a => exact hf a
  | fail e => exact hp
  | read marks next ih => exact fun d => ih d (hp d)
  | lock l next ih => exact ih hp
  | fresh next ih => exact fun m => ih m (hp m)
  | write w next ih => exact ih hp
  | undo n k next ih => exact ih hp
  | unmark next ih => exact ih hp
  | commit next ih => exact ih hp
  | rollback next ih => exact ih hp

/-- A savepoint raises what its handler raises. -/
theorem Raises.attempt {p : Prog S α} {handler : S.Err → Prog S α}
    (hh : ∀ e, (handler e).Raises E) : (p.attempt handler).Raises E := by
  have hfrom : ∀ n k, (attemptFrom n k p handler).Raises E := by
    induction p with
    | pure a => exact fun _ _ => trivial
    | fail e => exact fun _ _ => hh e
    | read marks next ih => exact fun n k d => ih d n k
    | lock l next ih => exact fun n k => ih n (k + 1)
    | fresh next ih => exact fun n k m => ih m n k
    | write w next ih => exact fun n k => ih (n + 1) k
    | undo a b next ih => exact fun n k => ih (n - a) (k - b)
    | unmark next ih => exact ih
    | commit next ih => exact fun _ _ => ih 0 0
    | rollback next ih => exact fun _ _ => ih 0 0
  exact hfrom 0 0

/-- A bound on the errors, as a condition on how the program ends. -/
theorem Raises.wp {p : Prog S α} (hp : p.Raises E) (s : Session S) :
    p.wp (fun _ _ => True) (fun e _ => E e) s := by
  induction p generalizing s with
  | pure a => trivial
  | fail e => exact hp
  | read marks next ih => exact ih s.view (hp s.view) s
  | lock l next ih => exact ih hp s
  | fresh next ih => exact ih s.supply (hp s.supply) s.take
  | write w next ih => exact ih hp (s.write w)
  | undo n k next ih => exact ih hp (s.undo n)
  | unmark next ih => exact ih hp s
  | commit next ih => exact ih hp s.commit
  | rollback next ih => exact ih hp s.close

end Raises

end Store.Prog
