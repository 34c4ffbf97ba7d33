import ReconEngine.Store.System

/-!
# What clients may rely on

A `Protocol` says what a lock protects, what a mark stands for, which stores are sound, and what
a write and a commit may do. A program `Follows` the protocol when each of its steps keeps to it
in every store that may by then be there: between two of its own steps the other clients may have
committed anything that leaves its locks and its marks as they were.

`Protocol.Ready.run` is the soundness of this reading. If every client follows the protocol and
the run changes nothing that is marked, then after the run the store is sound, every client still
follows the protocol, and the locks are exclusive. The hypothesis on the marks is where the code
relies on something it has not locked; without marks it is empty.

**What it does not establish.** That a run gets anywhere, or that clients do not wait for each other
in a circle. A protocol is a promise about what is written, not about when.
-/

set_option autoImplicit false

namespace Store

variable {S : Schema}

/-- The obligations and the guarantees that clients of one store share. -/
structure Protocol (S : Schema) where
  /-- The two stores agree on what the lock protects. -/
  agree : S.Lock → S.Db → S.Db → Prop
  /-- The two stores agree on what the mark stands for. -/
  same : S.Mark → S.Db → S.Db → Prop
  /-- The store is sound, its row identifiers being below the number. -/
  inv : Nat → S.Db → Prop
  /-- A client may append the write to its log while this is the committed store. -/
  writes : S.Db → S.Write → Prop
  /-- A commit may lead from one store to the other. -/
  moves : S.Db → S.Db → Prop
  agree_refl : ∀ l d, agree l d d
  agree_trans : ∀ l d d' d'', agree l d d' → agree l d' d'' → agree l d d''
  same_refl : ∀ m d, same m d d
  same_trans : ∀ m d d' d'', same m d d' → same m d' d'' → same m d d''
  inv_mono : ∀ n n' d, n ≤ n' → inv n d → inv n' d

/-- What a client knows: its locks, marks and log, and the store as it last saw it. -/
structure Local (S : Schema) where
  held : List S.Lock
  marks : List S.Mark
  log : List S.Write
  supply : Nat
  db : S.Db

namespace Protocol

variable (P : Protocol S) {α β ι σ : Type}

/-- A store that may be there when a client that knows `k` takes its next step. -/
structure Later (k : Local S) (n : Nat) (d : S.Db) : Prop where
  supply : k.supply ≤ n
  inv : P.inv n d
  agree : ∀ l ∈ k.held, P.agree l k.db d
  same : ∀ m ∈ k.marks, P.same m k.db d

/-- `p` keeps to the protocol whatever store it meets, and ends in `Q` or fails in `E`. -/
def Follows : Prog S α → (α → Local S → Prop) → (S.Err → Local S → Prop) → Local S → Prop
  | .pure a, Q, _, k => Q a k
  | .fail e, _, E, k => E e k
  | .read marks next, Q, E, k => ∀ n d, P.Later k n d →
      Follows (next (S.replay k.log d)) Q E
        { k with marks := marks (S.replay k.log d) ++ k.marks, supply := n, db := d }
  | .lock l next, Q, E, k => ∀ n d, P.Later k n d →
      Follows next Q E { k with held := l :: k.held, supply := n, db := d }
  | .fresh next, Q, E, k => ∀ n d, P.Later k n d →
      Follows (next n) Q E { k with supply := n + 1, db := d }
  | .write w next, Q, E, k => (∀ n d, P.Later k n d → P.writes d w) ∧
      Follows next Q E { k with log := k.log ++ [w] }
  | .undo a b next, Q, E, k =>
      Follows next Q E
        { k with log := k.log.take (k.log.length - a), held := k.held.drop b }
  | .unmark next, Q, E, k =>
      Follows next Q E { k with marks := k.marks.filter fun m => !S.transient m }
  | .commit next, Q, E, k => ∀ n d, P.Later k n d →
      (∀ l, l ∉ k.held → P.agree l d (S.replay k.log d)) ∧ P.inv n (S.replay k.log d) ∧
        P.moves d (S.replay k.log d) ∧
        Follows next Q E
          { held := [], marks := k.marks.filter fun m => !S.transient m, log := [], supply := n,
            db := S.replay k.log d }
  | .rollback next, Q, E, k =>
      Follows next Q E
        { k with held := [], marks := k.marks.filter fun m => !S.transient m, log := [] }

variable {P}

/-- What a client sees now may be there at its next step. -/
theorem Later.refl {k : Local S} (h : P.inv k.supply k.db) : P.Later k k.supply k.db :=
  ⟨Nat.le_refl _, h, fun l _ => P.agree_refl l k.db, fun m _ => P.same_refl m k.db⟩

/-- A change that leaves the client's locks and marks alone keeps a store admissible. -/
theorem Later.step {k : Local S} {n n' : Nat} {d d' : S.Db} (h : P.Later k n d) (hn : n ≤ n')
    (hinv : P.inv n' d') (hagree : ∀ l ∈ k.held, P.agree l d d')
    (hsame : ∀ m ∈ k.marks, P.same m d d') : P.Later k n' d' where
  supply := Nat.le_trans h.supply hn
  inv := hinv
  agree l hl := P.agree_trans l _ _ _ (h.agree l hl) (hagree l hl)
  same m hm := P.same_trans m _ _ _ (h.same m hm) (hsame m hm)

/-- What is known at the end may be weakened. -/
theorem Follows.mono {p : Prog S α} {Q Q' : α → Local S → Prop}
    {E E' : S.Err → Local S → Prop} {k : Local S} (h : P.Follows p Q E k)
    (hQ : ∀ a k, Q a k → Q' a k) (hE : ∀ e k, E e k → E' e k) : P.Follows p Q' E' k := by
  induction p generalizing k with
  | pure a => exact hQ a k h
  | fail e => exact hE e k h
  | read marks next ih => exact fun n d hl => ih _ (h n d hl)
  | lock l next ih => exact fun n d hl => ih (h n d hl)
  | fresh next ih => exact fun n d hl => ih _ (h n d hl)
  | write w next ih => exact ⟨h.1, ih h.2⟩
  | undo a b next ih => exact ih h
  | unmark next ih => exact ih h
  | commit next ih =>
    intro n d hl
    obtain ⟨hagree, hinv, hmoves, hnext⟩ := h n d hl
    exact ⟨hagree, hinv, hmoves, ih hnext⟩
  | rollback next ih => exact ih h

/-- What the values of a program are known to satisfy may be used after it. -/
theorem Follows.returns {p : Prog S α} {R : α → Prop} {Q : α → Local S → Prop}
    {E : S.Err → Local S → Prop} {k : Local S} (h : P.Follows p Q E k) (hr : p.Returns R) :
    P.Follows p (fun a k' => Q a k' ∧ R a) E k := by
  induction p generalizing k with
  | pure a => exact ⟨h, hr⟩
  | fail e => exact h
  | read marks next ih => exact fun n d hl => ih _ (h n d hl) (hr _)
  | lock l next ih => exact fun n d hl => ih (h n d hl) hr
  | fresh next ih => exact fun n d hl => ih _ (h n d hl) (hr _)
  | write w next ih => exact ⟨h.1, ih h.2 hr⟩
  | undo a b next ih => exact ih h hr
  | unmark next ih => exact ih h hr
  | commit next ih =>
    intro n d hl
    obtain ⟨hagree, hinv, hmoves, hnext⟩ := h n d hl
    exact ⟨hagree, hinv, hmoves, ih hnext hr⟩
  | rollback next ih => exact ih h hr

/-- Two parts follow the protocol where the second does from wherever the first ends. -/
theorem Follows.bind {p : Prog S α} {f : α → Prog S β} {Q : β → Local S → Prop}
    {E : S.Err → Local S → Prop} {k : Local S}
    (h : P.Follows p (fun a k => P.Follows (f a) Q E k) E k) : P.Follows (p.bind f) Q E k := by
  induction p generalizing k with
  | pure a => exact h
  | fail e => exact h
  | read marks next ih => exact fun n d hl => ih _ (h n d hl)
  | lock l next ih => exact fun n d hl => ih (h n d hl)
  | fresh next ih => exact fun n d hl => ih _ (h n d hl)
  | write w next ih => exact ⟨h.1, ih h.2⟩
  | undo a b next ih => exact ih h
  | unmark next ih => exact ih h
  | commit next ih =>
    intro n d hl
    obtain ⟨hagree, hinv, hmoves, hnext⟩ := h n d hl
    exact ⟨hagree, hinv, hmoves, ih hnext⟩
  | rollback next ih => exact ih h

section Statements

variable {E : S.Err → Local S → Prop} {k : Local S}

/-- A read answers with the client's own writes over whatever is committed by then. -/
theorem Follows.view {Q : S.Db → Local S → Prop}
    (h : ∀ n d, P.Later k n d → Q (S.replay k.log d) { k with supply := n, db := d }) :
    P.Follows Prog.view Q E k := h

/-- A read that marks something relies on it from then on. -/
theorem Follows.viewing {Q : S.Db → Local S → Prop} {marks : S.Db → List S.Mark}
    (h : ∀ n d, P.Later k n d → Q (S.replay k.log d)
      { k with marks := marks (S.replay k.log d) ++ k.marks, supply := n, db := d }) :
    P.Follows (Prog.viewing marks) Q E k := h

/-- A lock that is granted is held, and what it protects is as it was committed. -/
theorem Follows.lockRow {Q : Unit → Local S → Prop} {l : S.Lock}
    (h : ∀ n d, P.Later k n d → Q () { k with held := l :: k.held, supply := n, db := d }) :
    P.Follows (Prog.lockRow l) Q E k := h

/-- An identifier that nobody has had. -/
theorem Follows.newId {Q : Nat → Local S → Prop}
    (h : ∀ n d, P.Later k n d → Q n { k with supply := n + 1, db := d }) :
    P.Follows Prog.newId Q E k := h

/-- A write has to be allowed in every store that may be there by then. -/
theorem Follows.put {Q : Unit → Local S → Prop} {w : S.Write}
    (hw : ∀ n d, P.Later k n d → P.writes d w) (h : Q () { k with log := k.log ++ [w] }) :
    P.Follows (Prog.put w) Q E k := ⟨hw, h⟩

/-- A check goes on only where it holds. -/
theorem Follows.require {Q : Unit → Local S → Prop} {c : Bool} {e : S.Err}
    (h : c = true → Q () k) (h' : c = false → E e k) : P.Follows (Prog.require c e) Q E k := by
  cases c with
  | true => exact h rfl
  | false => exact h' rfl

end Statements

/-- A loop over a list keeps what each of its turns keeps. -/
theorem Follows.foldlM {body : σ → ι → Prog S σ} {I : σ → Local S → Prop}
    {E : S.Err → Local S → Prop} :
    ∀ (items : List ι), (∀ i ∈ items, ∀ st k, I st k → P.Follows (body st i) I E k) →
      ∀ (st : σ) (k : Local S), I st k → P.Follows (items.foldlM body st) I E k
  | [], _, _, _, hk => hk
  | i :: items, turn, st, k, hk => by
    rw [List.foldlM_cons]
    exact ((turn i (by simp) st k hk).mono
      (fun st' k' h =>
        Follows.foldlM items (fun j hj => turn j (List.mem_cons_of_mem i hj)) st' k' h)
      fun _ _ h => h).bind

/-! ## Savepoints -/

section Savepoints

variable {W : S.Write → Prop} {Q : α → Local S → Prop} {E : S.Err → Local S → Prop}

/-- What work leaves of the client's knowledge: it keeps the locks it found, adds writes that
satisfy `W`, and the store has kept what the locks it found protect. -/
structure Extends (P : Protocol S) (W : S.Write → Prop) (k k' : Local S) : Prop where
  held : ∃ ls, k'.held = ls ++ k.held
  log : ∃ ws, k'.log = k.log ++ ws ∧ ∀ w ∈ ws, W w
  agree : ∀ l ∈ k.held, P.agree l k.db k'.db

/-- A later store still agrees with the one of a savepoint on the locks held at the savepoint. -/
theorem Later.agree_base {k₀ k : Local S} {ls : List S.Lock} {n : Nat} {d : S.Db}
    (h : P.Later k n d) (hheld : k.held = ls ++ k₀.held)
    (hagree : ∀ l ∈ k₀.held, P.agree l k₀.db k.db) : ∀ l ∈ k₀.held, P.agree l k₀.db d := by
  intro l hl
  refine P.agree_trans l _ _ _ (hagree l hl) (h.agree l ?_)
  rw [hheld]
  exact List.mem_append_right _ hl

/-- The induction carries the locks `u` and the writes `v` since the savepoint. -/
private theorem Follows.inner_extends {p : Prog S α} {m n : Nat} (hp : p.Inner W n m)
    {k₀ k : Local S} {u : List S.Lock} {v : List S.Write} (hheld : k.held = u ++ k₀.held)
    (hm : u.length = m) (hlog : k.log = k₀.log ++ v) (hn : v.length = n) (hws : ∀ w ∈ v, W w)
    (hagree : ∀ l ∈ k₀.held, P.agree l k₀.db k.db) (h : P.Follows p Q E k) :
    P.Follows p (fun a k' => Q a k' ∧ P.Extends W k₀ k') (fun e k' => E e k' ∧ P.Extends W k₀ k')
      k := by
  induction p generalizing n m k u v with
  | pure a => exact ⟨h, ⟨u, hheld⟩, ⟨v, hlog, hws⟩, hagree⟩
  | fail e => exact ⟨h, ⟨u, hheld⟩, ⟨v, hlog, hws⟩, hagree⟩
  | read marks next ih =>
    exact fun n' d hl =>
      ih _ (hp _) hheld hm hlog hn hws (hl.agree_base hheld hagree) (h n' d hl)
  | lock l next ih =>
    exact fun n' d hl => ih hp (u := l :: u) (congrArg (l :: ·) hheld) (congrArg Nat.succ hm) hlog
      hn hws (hl.agree_base hheld hagree) (h n' d hl)
  | fresh next ih =>
    exact fun n' d hl =>
      ih _ (hp _) hheld hm hlog hn hws (hl.agree_base hheld hagree) (h n' d hl)
  | write w next ih =>
    have hlog' : k.log ++ [w] = k₀.log ++ (v ++ [w]) := by rw [hlog, List.append_assoc]
    refine ⟨h.1, ih hp.2 hheld hm hlog' (by simp [hn]) ?_ hagree h.2⟩
    intro w' hw'
    rcases List.mem_append.mp hw' with hmem | hmem
    · exact hws w' hmem
    · rw [List.mem_singleton.mp hmem]
      exact hp.1
  | undo a b next ih =>
    obtain ⟨ha, hb, hnext⟩ := hp
    have hlen : k₀.log.length + v.length - a = k₀.log.length + (v.length - a) := by omega
    refine ih hnext (u := u.drop b) (v := v.take (v.length - a)) ?_ ?_ ?_ ?_ ?_ hagree h
    · rw [hheld, List.drop_append_of_le_length (hm ▸ hb)]
    · rw [List.length_drop, hm]
    · simp only [hlog, List.length_append, hlen, List.take_length_add_append]
    · rw [List.length_take, hn]
      omega
    · exact fun w hw => hws w (List.mem_of_mem_take hw)
  | unmark next ih => exact ih hp hheld hm hlog hn hws hagree h
  | commit next ih => exact hp.elim
  | rollback next ih => exact hp.elim

/-- Work that follows the protocol extends what the client knew at its start. -/
theorem Follows.extends {p : Prog S α} (hp : p.Work W) {k : Local S} (h : P.Follows p Q E k) :
    P.Follows p (fun a k' => Q a k' ∧ P.Extends W k k') (fun e k' => E e k' ∧ P.Extends W k k') k :=
  Follows.inner_extends hp (List.nil_append _).symm rfl (List.append_nil _).symm rfl
    (fun _ hw => absurd hw List.not_mem_nil) (fun l _ => P.agree_refl l k.db) h

/-- Work follows the protocol when its writes are allowed. -/
theorem Follows.work {p : Prog S α} {m n : Nat} (hp : p.Inner W n m)
    (hW : ∀ d w, W w → P.writes d w) (k : Local S) :
    P.Follows p (fun _ _ => True) (fun _ _ => True) k := by
  induction p generalizing n m k with
  | pure a => trivial
  | fail e => trivial
  | read marks next ih => exact fun n' d _ => ih _ (hp _) _
  | lock l next ih => exact fun n' d _ => ih hp _
  | fresh next ih => exact fun n' d _ => ih _ (hp _) _
  | write w next ih => exact ⟨fun n' d _ => hW d w hp.1, ih hp.2 _⟩
  | undo a b next ih => exact ih hp.2.2 _
  | unmark next ih => exact ih hp _
  | commit next ih => exact hp.elim
  | rollback next ih => exact hp.elim

/-- A savepoint keeps the locks that were taken in it and drops the writes. -/
private theorem Follows.attemptFrom {p : Prog S α} {handler : S.Err → Prog S α} {m n : Nat}
    (hp : p.Inner W n m) {held : List S.Lock} {log : List S.Write} {k : Local S}
    {u : List S.Lock} {v : List S.Write} (hheld : k.held = u ++ held) (hm : u.length = m)
    (hlog : k.log = log ++ v) (hn : v.length = n)
    (h : P.Follows p Q
      (fun e k' => P.Follows (handler e) Q E { k' with held := held, log := log }) k) :
    P.Follows (Prog.attemptFrom n m p handler) Q E k := by
  induction p generalizing n m k u v with
  | pure a => exact h
  | fail e =>
    have hundo : k.log.take (k.log.length - n) = log := by
      have hlen : log.length + v.length - n = log.length + 0 := by omega
      rw [hlog, List.length_append, hlen, List.take_length_add_append, List.take_zero,
        List.append_nil]
    have hdrop : k.held.drop m = held := by rw [hheld, ← hm, List.drop_left]
    show P.Follows (handler e) Q E _
    rw [hundo, hdrop]
    exact h
  | read marks next ih => exact fun n' d hl => ih _ (hp _) hheld hm hlog hn (h n' d hl)
  | lock l next ih =>
    exact fun n' d hl => ih hp (u := l :: u) (congrArg (l :: ·) hheld) (congrArg Nat.succ hm) hlog
      hn (h n' d hl)
  | fresh next ih => exact fun n' d hl => ih _ (hp _) hheld hm hlog hn (h n' d hl)
  | write w next ih =>
    have hlog' : k.log ++ [w] = log ++ (v ++ [w]) := by rw [hlog, List.append_assoc]
    exact ⟨h.1, ih hp.2 hheld hm hlog' (by simp [hn]) h.2⟩
  | undo a b next ih =>
    obtain ⟨ha, hb, hnext⟩ := hp
    have hlen : log.length + v.length - a = log.length + (v.length - a) := by omega
    refine ih hnext (u := u.drop b) (v := v.take (v.length - a)) ?_ ?_ ?_ ?_ h
    · rw [hheld, List.drop_append_of_le_length (hm ▸ hb)]
    · rw [List.length_drop, hm]
    · simp only [hlog, List.length_append, hlen, List.take_length_add_append]
    · rw [List.length_take, hn]
      omega
  | unmark next ih => exact ih hp hheld hm hlog hn h
  | commit next ih => exact hp.elim
  | rollback next ih => exact hp.elim

/-- The handler of a savepoint starts from the locks and the writes there were before it. -/
theorem Follows.attempt {p : Prog S α} {handler : S.Err → Prog S α} (hp : p.Work W) {k : Local S}
    (h : P.Follows p Q (fun e k' => P.Extends W k k' →
      P.Follows (handler e) Q E { k' with held := k.held, log := k.log }) k) :
    P.Follows (p.attempt handler) Q E k :=
  Follows.attemptFrom hp (List.nil_append _).symm rfl (List.append_nil _).symm rfl
    ((h.extends hp).mono (fun _ _ hq => hq.1) fun _ _ he => he.1 he.2)

end Savepoints

/-! ## Soundness -/

variable (P)

/-- The client keeps to the protocol from here on, given what it has seen. -/
def Knows (c : Client S) (n : Nat) (d : S.Db) : Prop :=
  ∃ n₀ d₀, P.Later ⟨c.held, c.marks, c.log, n₀, d₀⟩ n d ∧
    P.Follows c.prog (fun _ _ => True) (fun _ _ => True) ⟨c.held, c.marks, c.log, n₀, d₀⟩

/-- The store is sound, no lock has two holders, and every client keeps to the protocol. -/
structure Ready (s : System S) : Prop where
  inv : P.inv s.supply s.db
  exclusive : ∀ (i j : Nat) (l : S.Lock), s.Holds i l → s.Holds j l → i = j
  knows : ∀ (i : Nat) (c : Client S), s.clients[i]? = some c → P.Knows c s.supply s.db

variable {P}

/-- A client that has ended knows that the store is sound. -/
theorem knows_done {n : Nat} {d : S.Db} (h : P.inv n d) : P.Knows .done n d :=
  ⟨n, d, ⟨Nat.le_refl n, h, fun _ hl => absurd hl List.not_mem_nil,
    fun _ hm => absurd hm List.not_mem_nil⟩, trivial⟩

/-- What one statement of a client that keeps to the protocol does. -/
theorem Knows.advance {c c' : Client S} {d d' : S.Db} {n n' : Nat} {free : S.Lock → Bool}
    (hc : P.Knows c n d) (hadv : c.advance d n free = some (c', d', n')) :
    n ≤ n' ∧ P.inv n' d' ∧ (∀ l, l ∉ c.held → P.agree l d d') ∧ (d' = d ∨ P.moves d d') ∧
      P.Knows c' n' d' := by
  obtain ⟨n₀, d₀, hlater, hfollows⟩ := hc
  have hinv := hlater.inv
  obtain ⟨prog, held, marks, log⟩ := c
  cases prog with
  | pure a =>
    cases hadv
    exact ⟨Nat.le_refl n, hinv, fun l _ => P.agree_refl l d, Or.inl rfl, knows_done hinv⟩
  | fail e =>
    cases hadv
    exact ⟨Nat.le_refl n, hinv, fun l _ => P.agree_refl l d, Or.inl rfl, knows_done hinv⟩
  | read ms next =>
    cases hadv
    exact ⟨Nat.le_refl n, hinv, fun l _ => P.agree_refl l d, Or.inl rfl,
      n, d, Later.refl hinv, hfollows n d hlater⟩
  | lock l next =>
    simp only [Client.advance] at hadv
    split at hadv
    · cases hadv
      exact ⟨Nat.le_refl n, hinv, fun l _ => P.agree_refl l d, Or.inl rfl,
        n, d, Later.refl hinv, hfollows n d hlater⟩
    · cases hadv
  | fresh next =>
    cases hadv
    have hinv' := P.inv_mono n (n + 1) d (Nat.le_succ n) hinv
    exact ⟨Nat.le_succ n, hinv', fun l _ => P.agree_refl l d, Or.inl rfl,
      n + 1, d, Later.refl hinv', hfollows n d hlater⟩
  | write w next =>
    cases hadv
    exact ⟨Nat.le_refl n, hinv, fun l _ => P.agree_refl l d, Or.inl rfl,
      n₀, d₀, ⟨hlater.supply, hlater.inv, hlater.agree, hlater.same⟩, hfollows.2⟩
  | undo a b next =>
    cases hadv
    exact ⟨Nat.le_refl n, hinv, fun l _ => P.agree_refl l d, Or.inl rfl,
      n₀, d₀, ⟨hlater.supply, hlater.inv, fun l hl => hlater.agree l (List.mem_of_mem_drop hl),
        hlater.same⟩, hfollows⟩
  | unmark next =>
    cases hadv
    exact ⟨Nat.le_refl n, hinv, fun l _ => P.agree_refl l d, Or.inl rfl,
      n₀, d₀, ⟨hlater.supply, hlater.inv, hlater.agree,
        fun m hm => hlater.same m (List.mem_of_mem_filter hm)⟩, hfollows⟩
  | commit next =>
    cases hadv
    obtain ⟨hagree, hinv', hmoves, hnext⟩ := hfollows n d hlater
    exact ⟨Nat.le_refl n, hinv', hagree, Or.inr hmoves,
      n, S.replay log d, Later.refl hinv', hnext⟩
  | rollback next =>
    cases hadv
    exact ⟨Nat.le_refl n, hinv, fun l _ => P.agree_refl l d, Or.inl rfl,
      n₀, d₀, ⟨hlater.supply, hlater.inv, fun l hl => absurd hl List.not_mem_nil,
        fun m hm => hlater.same m (List.mem_of_mem_filter hm)⟩, hfollows⟩

/-- A client about to write may write. -/
theorem Knows.writes {c : Client S} {n : Nat} {d : S.Db} {w : S.Write} {next : Prog S Unit}
    (hc : P.Knows c n d) (hw : c.prog = .write w next) : P.writes d w := by
  obtain ⟨n₀, d₀, hlater, hfollows⟩ := hc
  rw [hw] at hfollows
  exact hfollows.1 n d hlater

variable [DecidableEq S.Lock]

/-- What a step that changes nothing marked leaves of another client: all of it, in a store that it
has to expect. -/
theorem Ready.later_step {s s' : System S} {e : Event} (hs : P.Ready s) (h : s.step e = some s')
    (hmarks : ∀ j c, j ≠ e.client → s.clients[j]? = some c → ∀ m ∈ c.marks, P.same m s.db s'.db)
    {j : Nat} {c : Client S} (hj : j ≠ e.client) (hc : s.clients[j]? = some c) {n₀ : Nat}
    {d₀ : S.Db} (hl : P.Later ⟨c.held, c.marks, c.log, n₀, d₀⟩ s.supply s.db) :
    s'.clients[j]? = some c ∧ P.Later ⟨c.held, c.marks, c.log, n₀, d₀⟩ s'.supply s'.db := by
  cases e with
  | kill i =>
    obtain ⟨hd, hn, hcl⟩ := System.step_kill h
    have hij : i ≠ j := Ne.symm hj
    rw [hd, hn, hcl, List.getElem?_set_ne hij]
    exact ⟨hc, hl⟩
  | run i =>
    obtain ⟨a, a', ha, hadv, hcl⟩ := System.step_run h
    obtain ⟨hn, hinv, hagree, -, -⟩ := (hs.knows i a ha).advance hadv
    have hij : i ≠ j := Ne.symm hj
    rw [hcl, List.getElem?_set_ne hij]
    refine ⟨hc, hl.step hn hinv (fun l hheld => hagree l fun hmem => hj ?_) (hmarks j c hj hc)⟩
    exact hs.exclusive j i l ⟨c, hc, hheld⟩ ⟨a, ha, hmem⟩

/-- The client that steps keeps to the protocol. -/
theorem Knows.step {s s' : System S} {e : Event} (h : s.step e = some s') {c : Client S}
    (hc : s.clients[e.client]? = some c) (hk : P.Knows c s.supply s.db) :
    ∃ c', s'.clients[e.client]? = some c' ∧ P.Knows c' s'.supply s'.db := by
  have hlt : e.client < s.clients.length := (List.getElem?_eq_some_iff.mp hc).1
  cases e with
  | kill i =>
    obtain ⟨hd, hn, hcl⟩ := System.step_kill h
    obtain ⟨n₀, d₀, hlater, -⟩ := hk
    refine ⟨.done, ?_, by rw [hd, hn]; exact knows_done hlater.inv⟩
    rw [hcl]
    exact List.getElem?_set_self hlt
  | run i =>
    obtain ⟨a, a', ha, hadv, hcl⟩ := System.step_run h
    obtain rfl : a = c := Option.some.inj (ha.symm.trans hc)
    obtain ⟨-, -, -, -, hknows⟩ := hk.advance hadv
    refine ⟨a', ?_, hknows⟩
    rw [hcl]
    exact List.getElem?_set_self hlt

/-- One step of a system whose clients keep to the protocol, when it changes nothing that another
client has marked. -/
theorem Ready.step {s s' : System S} {e : Event} (hs : P.Ready s) (h : s.step e = some s')
    (hmarks : ∀ j c, j ≠ e.client → s.clients[j]? = some c → ∀ m ∈ c.marks, P.same m s.db s'.db) :
    P.Ready s' ∧ (s'.db = s.db ∨ P.moves s.db s'.db) := by
  have hback : ∀ (j : Nat) (c : Client S), s'.clients[j]? = some c →
      ∃ c₀, s.clients[j]? = some c₀ := by
    intro j c hc
    have hlt : j < s.clients.length := System.length_step h ▸ (List.getElem?_eq_some_iff.mp hc).1
    exact ⟨s.clients[j], List.getElem?_eq_getElem hlt⟩
  have hknows : ∀ (j : Nat) (c : Client S), s'.clients[j]? = some c →
      P.Knows c s'.supply s'.db := by
    intro j c hc
    obtain ⟨c₀, hc₀⟩ := hback j c hc
    by_cases hj : j = e.client
    · subst hj
      obtain ⟨c', hc', hk⟩ := (hs.knows _ c₀ hc₀).step h hc₀
      rwa [Option.some.inj (hc.symm.trans hc')]
    · obtain ⟨n₀, d₀, hlater, hfollows⟩ := hs.knows j c₀ hc₀
      obtain ⟨hc', hlater'⟩ := hs.later_step h hmarks hj hc₀ hlater
      rw [Option.some.inj (hc.symm.trans hc')]
      exact ⟨n₀, d₀, hlater', hfollows⟩
  have hexclusive : s'.Exclusive := System.exclusive_step hs.exclusive h
  cases e with
  | kill i =>
    obtain ⟨hd, hn, -⟩ := System.step_kill h
    exact ⟨⟨by rw [hd, hn]; exact hs.inv, hexclusive, hknows⟩, Or.inl hd⟩
  | run i =>
    obtain ⟨c, c', hc, hadv, -⟩ := System.step_run h
    obtain ⟨-, hinv, -, hmoves, -⟩ := (hs.knows i c hc).advance hadv
    exact ⟨⟨hinv, hexclusive, hknows⟩, hmoves⟩

/-- **Soundness.** After a run that respects the marks the store is sound and every client still
keeps to the protocol. -/
theorem Ready.run {s s' : System S} (hs : P.Ready s) (es : List Event)
    (hst : s.Stable P.same es) (h : s.run es = some s') : P.Ready s' :=
  System.stable_induction (I := P.Ready) (fun _ _ _ ht hstep hm => (ht.step hstep hm).1) es hs hst h

end Protocol
end Store
