import Mathlib.Data.List.Basic

/-!
# Client programs of a transactional store

A client of a relational store reads, locks and writes rows inside a transaction, and ends it
with a commit or a rollback. `Prog` is the syntax of such a client: a tree whose nodes are the
statements it sends and whose branches are the answers. A `Schema` says what the store is made
of; nothing here knows which tables there are.

`Prog.exec` is the sequential meaning: one client, alone. A write is kept in the transaction's
log and seen by the transaction's own reads; the committed store changes at a commit only. The
interleaved meaning of several clients is in `Store/System.lean`, over the same syntax.

Two constructors carry no effect when a client runs alone. `lock` waits for a row, a unique key
or an advisory lock and holds it to the end of the transaction. The marks of a `read` name what
the client goes on to rely on without having locked it, and `unmark` says that it no longer
does: they are ghost state, there for the interleaved reasoning only.

**What it does not establish.** The sequential meaning says nothing of waiting: a lock is granted at
once here. A law that is proved with `wp` speaks of one client on its own view; it holds among
others only where a protocol says that they leave the view alone (`Store.Protocol`).
-/

set_option autoImplicit false

namespace Store

/-- What a store is made of: its contents, what a client can lock, what it can read without a
lock, the row-level writes with their effect, and the errors its programs raise. The transient marks
are dropped at the end of the transaction, or before it when the client says so. -/
structure Schema where
  Db : Type
  Lock : Type
  Mark : Type
  Write : Type
  Err : Type
  apply : Write → Db → Db
  transient : Mark → Bool

/-- The contents after a log of writes. -/
def Schema.replay (S : Schema) (log : List S.Write) (d : S.Db) : S.Db :=
  log.foldl (fun d w => S.apply w d) d

@[simp] theorem Schema.replay_nil (S : Schema) (d : S.Db) : S.replay [] d = d := rfl

@[simp] theorem Schema.replay_cons (S : Schema) (w : S.Write) (log : List S.Write) (d : S.Db) :
    S.replay (w :: log) d = S.replay log (S.apply w d) := rfl

@[simp] theorem Schema.replay_append (S : Schema) (log log' : List S.Write) (d : S.Db) :
    S.replay (log ++ log') d = S.replay log' (S.replay log d) :=
  List.foldl_append

/-- What none of the writes changes stays as it is. -/
theorem Schema.replay_keeps {S : Schema} {γ : Type} {f : S.Db → γ} :
    ∀ {log : List S.Write}, (∀ w ∈ log, ∀ d, f (S.apply w d) = f d) → ∀ d, f (S.replay log d) = f d
  | [], _, _ => rfl
  | w :: log, h, d => by
    rw [Schema.replay_cons, Schema.replay_keeps fun w' hw' => h w' (List.mem_cons_of_mem w hw')]
    exact h w List.mem_cons_self d

/-- A client program that ends with a value of type `α` or fails. -/
inductive Prog (S : Schema) (α : Type) : Type where
  | pure (a : α)
  | fail (e : S.Err)
  /-- A plain read of the transaction's own view. -/
  | read (marks : S.Db → List S.Mark) (next : S.Db → Prog S α)
  /-- Wait for a lock and hold it until the transaction ends. -/
  | lock (l : S.Lock) (next : Prog S α)
  /-- A row identifier no row has. -/
  | fresh (next : Nat → Prog S α)
  | write (w : S.Write) (next : Prog S α)
  /-- Roll back to a savepoint: the writes and the locks taken since it are given back. -/
  | undo (writes locks : Nat) (next : Prog S α)
  /-- Stop relying on the transient marks. -/
  | unmark (next : Prog S α)
  | commit (next : Prog S α)
  | rollback (next : Prog S α)

namespace Prog

variable {S : Schema} {α β γ : Type}

/-- Run `p`, then the program its value selects. -/
def bind : Prog S α → (α → Prog S β) → Prog S β
  | .pure a, f => f a
  | .fail e, _ => .fail e
  | .read marks next, f => .read marks fun d => (next d).bind f
  | .lock l next, f => .lock l (next.bind f)
  | .fresh next, f => .fresh fun n => (next n).bind f
  | .write w next, f => .write w (next.bind f)
  | .undo n k next, f => .undo n k (next.bind f)
  | .unmark next, f => .unmark (next.bind f)
  | .commit next, f => .commit (next.bind f)
  | .rollback next, f => .rollback (next.bind f)

instance : Monad (Prog S) where
  pure := .pure
  bind := .bind

@[simp] theorem bind_eq (p : Prog S α) (f : α → Prog S β) : p >>= f = p.bind f := rfl

@[simp] theorem pure_eq (a : α) : (Pure.pure a : Prog S α) = .pure a := rfl

@[simp] theorem map_eq (f : α → β) (p : Prog S α) : f <$> p = p.bind fun a => .pure (f a) := rfl

@[simp] theorem pure_bind (a : α) (f : α → Prog S β) : (Prog.pure a).bind f = f a := rfl

/-! ## Statements -/

/-- Read the transaction's view, relying on nothing afterwards but what is locked. -/
def view : Prog S S.Db := .read (fun _ => []) .pure

/-- Read the transaction's view and rely on `marks` without locking them. -/
def viewing (marks : S.Db → List S.Mark) : Prog S S.Db := .read marks .pure

def lockRow (l : S.Lock) : Prog S Unit := .lock l (.pure ())

def newId : Prog S Nat := .fresh .pure

def put (w : S.Write) : Prog S Unit := .write w (.pure ())

def forget : Prog S Unit := .unmark (.pure ())

def commitNow : Prog S Unit := .commit (.pure ())

def rollbackNow : Prog S Unit := .rollback (.pure ())

/-- Go on when `c` holds, raise `e` otherwise. -/
def require (c : Bool) (e : S.Err) : Prog S Unit := if c then .pure () else .fail e

/-- The value of a computation, or its error. -/
def ofExcept : Except S.Err α → Prog S α
  | .ok a => .pure a
  | .error e => .fail e

/-- `p` inside a savepoint that `n` writes and `k` locks are already part of. A failure gives
back what was done since the savepoint and goes on with the handler. -/
def attemptFrom : Nat → Nat → Prog S α → (S.Err → Prog S α) → Prog S α
  | _, _, .pure a, _ => .pure a
  | n, k, .fail e, handler => .undo n k (handler e)
  | n, k, .read marks next, handler => .read marks fun d => attemptFrom n k (next d) handler
  | n, k, .lock l next, handler => .lock l (attemptFrom n (k + 1) next handler)
  | n, k, .fresh next, handler => .fresh fun m => attemptFrom n k (next m) handler
  | n, k, .write w next, handler => .write w (attemptFrom (n + 1) k next handler)
  | n, k, .undo a b next, handler => .undo a b (attemptFrom (n - a) (k - b) next handler)
  | n, k, .unmark next, handler => .unmark (attemptFrom n k next handler)
  | _, _, .commit next, handler => .commit (attemptFrom 0 0 next handler)
  | _, _, .rollback next, handler => .rollback (attemptFrom 0 0 next handler)

/-- `p` inside a savepoint, with a handler for its failures. -/
def attempt (p : Prog S α) (handler : S.Err → Prog S α) : Prog S α := attemptFrom 0 0 p handler

/-- `p`, except that its statement number `n` raises `e` instead of being carried out. -/
def failAt : Nat → S.Err → Prog S α → Prog S α
  | _, _, .pure a => .pure a
  | _, _, .fail e' => .fail e'
  | 0, e, _ => .fail e
  | n + 1, e, .read marks next => .read marks fun d => failAt n e (next d)
  | n + 1, e, .lock l next => .lock l (failAt n e next)
  | n + 1, e, .fresh next => .fresh fun m => failAt n e (next m)
  | n + 1, e, .write w next => .write w (failAt n e next)
  | n + 1, e, .undo a b next => .undo a b (failAt n e next)
  | n + 1, e, .unmark next => .unmark (failAt n e next)
  | n + 1, e, .commit next => .commit (failAt n e next)
  | n + 1, e, .rollback next => .rollback (failAt n e next)

end Prog

/-! ## One client alone -/

/-- A session: the committed store, the open transaction's writes, and the next unused row
identifier. -/
structure Session (S : Schema) where
  committed : S.Db
  log : List S.Write := []
  supply : Nat

namespace Session

variable {S : Schema}

/-- What the open transaction reads: the committed store under its own writes. -/
def view (s : Session S) : S.Db := S.replay s.log s.committed

def write (s : Session S) (w : S.Write) : Session S := { s with log := s.log ++ [w] }

def take (s : Session S) : Session S := { s with supply := s.supply + 1 }

def undo (s : Session S) (n : Nat) : Session S := { s with log := s.log.take (s.log.length - n) }

def commit (s : Session S) : Session S := { s with committed := s.view, log := [] }

/-- The transaction is dropped: the log is discarded. -/
def close (s : Session S) : Session S := { s with log := [] }

@[simp] theorem view_write (s : Session S) (w : S.Write) :
    (s.write w).view = S.apply w s.view := by
  simp only [view, write, Schema.replay_append, Schema.replay_cons, Schema.replay_nil]

@[simp] theorem view_take (s : Session S) : s.take.view = s.view := rfl
@[simp] theorem view_commit (s : Session S) : s.commit.view = s.view := rfl
@[simp] theorem view_close (s : Session S) : s.close.view = s.committed := rfl
@[simp] theorem committed_write (s : Session S) (w : S.Write) :
    (s.write w).committed = s.committed := rfl
@[simp] theorem committed_take (s : Session S) : s.take.committed = s.committed := rfl
@[simp] theorem committed_commit (s : Session S) : s.commit.committed = s.view := rfl
@[simp] theorem committed_close (s : Session S) : s.close.committed = s.committed := rfl
@[simp] theorem supply_write (s : Session S) (w : S.Write) : (s.write w).supply = s.supply := rfl
@[simp] theorem supply_take (s : Session S) : s.take.supply = s.supply + 1 := rfl
@[simp] theorem supply_commit (s : Session S) : s.commit.supply = s.supply := rfl
@[simp] theorem supply_close (s : Session S) : s.close.supply = s.supply := rfl
@[simp] theorem log_write (s : Session S) (w : S.Write) : (s.write w).log = s.log ++ [w] := rfl
@[simp] theorem log_take (s : Session S) : s.take.log = s.log := rfl
@[simp] theorem log_commit (s : Session S) : s.commit.log = [] := rfl
@[simp] theorem log_close (s : Session S) : s.close.log = [] := rfl

/-- Undoing the writes made since a point leaves the log of that point. -/
theorem undo_log {s : Session S} {base ws : List S.Write} (h : s.log = base ++ ws) {n : Nat}
    (hn : n ≤ ws.length) : (s.undo n).log = base ++ ws.take (ws.length - n) := by
  have hlen : base.length + ws.length - n = base.length + (ws.length - n) := by omega
  simp only [undo, h, List.length_append, hlen, List.take_length_add_append]

end Session

namespace Prog

variable {S : Schema} {α β ι σ : Type}

/-- The sequential meaning of a program: its outcome and the session it leaves. -/
def exec : Prog S α → Session S → Except S.Err α × Session S
  | .pure a, s => (.ok a, s)
  | .fail e, s => (.error e, s)
  | .read _ next, s => (next s.view).exec s
  | .lock _ next, s => next.exec s
  | .fresh next, s => (next s.supply).exec s.take
  | .write w next, s => next.exec (s.write w)
  | .undo n _ next, s => next.exec (s.undo n)
  | .unmark next, s => next.exec s
  | .commit next, s => next.exec s.commit
  | .rollback next, s => next.exec s.close

/-- A request: the program in the session, committed when it succeeds and rolled back when it
fails. -/
def request (p : Prog S α) (s : Session S) : Except S.Err α × Session S :=
  match p.exec s with
  | (.ok a, s') => (.ok a, s'.commit)
  | (.error e, s') => (.error e, s'.close)

/-- A bind runs its first part, then the program the value selects; a failure ends it. -/
theorem exec_bind (p : Prog S α) (f : α → Prog S β) (s : Session S) :
    (p.bind f).exec s = match p.exec s with
      | (.ok a, s') => (f a).exec s'
      | (.error e, s') => (.error e, s') := by
  induction p generalizing s with
  | pure a => rfl
  | fail e => rfl
  | read marks next ih => exact ih s.view s
  | lock l next ih => exact ih s
  | fresh next ih => exact ih s.supply s.take
  | write w next ih => exact ih (s.write w)
  | undo n k next ih => exact ih (s.undo n)
  | unmark next ih => exact ih s
  | commit next ih => exact ih s.commit
  | rollback next ih => exact ih s.close

/-! ## Work inside one transaction -/

/-- `p` neither commits nor rolls back, all its writes satisfy `W`, and it undoes no more than
the `n` writes and `k` locks that precede it and its own. -/
def Inner (W : S.Write → Prop) : Nat → Nat → Prog S α → Prop
  | _, _, .pure _ => True
  | _, _, .fail _ => True
  | n, k, .read _ next => ∀ d, (next d).Inner W n k
  | n, k, .lock _ next => next.Inner W n (k + 1)
  | n, k, .fresh next => ∀ m, (next m).Inner W n k
  | n, k, .write w next => W w ∧ next.Inner W (n + 1) k
  | n, k, .undo a b next => a ≤ n ∧ b ≤ k ∧ next.Inner W (n - a) (k - b)
  | n, k, .unmark next => next.Inner W n k
  | _, _, .commit _ => False
  | _, _, .rollback _ => False

/-- `p` works inside one transaction and all its writes satisfy `W`. -/
def Work (W : S.Write → Prop) (p : Prog S α) : Prop := p.Inner W 0 0

/-- Every value the program may end with satisfies `Q`, whatever it reads. -/
def Returns (Q : α → Prop) : Prog S α → Prop
  | .pure a => Q a
  | .fail _ => True
  | .read _ next => ∀ d, (next d).Returns Q
  | .lock _ next => next.Returns Q
  | .fresh next => ∀ m, (next m).Returns Q
  | .write _ next => next.Returns Q
  | .undo _ _ next => next.Returns Q
  | .unmark next => next.Returns Q
  | .commit next => next.Returns Q
  | .rollback next => next.Returns Q

/-- What a program returns is known from its parts. -/
theorem Returns.bind {p : Prog S α} {f : α → Prog S β} {P : α → Prop} {Q : β → Prop}
    (hp : p.Returns P) (hf : ∀ a, P a → (f a).Returns Q) : (p.bind f).Returns Q := by
  induction p with
  | pure a => exact hf a hp
  | fail e => trivial
  | read marks next ih => exact fun d => ih d (hp d)
  | fresh next ih => exact fun m => ih m (hp m)
  | lock l next ih => exact ih hp
  | write w next ih => exact ih hp
  | undo n k next ih => exact ih hp
  | unmark next ih => exact ih hp
  | commit next ih => exact ih hp
  | rollback next ih => exact ih hp

/-- A result that is given returns what it is. -/
theorem returns_ofExcept {x : Except S.Err α} {Q : α → Prop} :
    (ofExcept x : Prog S α).Returns Q ↔ ∀ a, x = .ok a → Q a := by
  cases x with
  | ok a => exact ⟨fun h b hb => Except.ok.inj hb ▸ h, fun h => h a rfl⟩
  | error e => exact ⟨fun _ a ha => (nomatch ha), fun _ => trivial⟩

theorem returns_true (p : Prog S α) : p.Returns fun _ => True := by
  induction p with
  | pure a => trivial
  | fail e => trivial
  | read marks next ih => exact ih
  | fresh next ih => exact ih
  | lock l next ih => exact ih
  | write w next ih => exact ih
  | undo n k next ih => exact ih
  | unmark next ih => exact ih
  | commit next ih => exact ih
  | rollback next ih => exact ih

section Work

variable {W : S.Write → Prop}

/-- Inside a larger log less has to be given back. -/
theorem Inner.mono {p : Prog S α} {n k n' k' : Nat} (h : p.Inner W n k) (hn : n ≤ n')
    (hk : k ≤ k') : p.Inner W n' k' := by
  induction p generalizing n k n' k' with
  | pure a => trivial
  | fail e => trivial
  | read marks next ih => exact fun d => ih d (h d) hn hk
  | lock l next ih => exact ih h hn (by omega)
  | fresh next ih => exact fun m => ih m (h m) hn hk
  | write w next ih => exact ⟨h.1, ih h.2 (by omega) hk⟩
  | undo a b next ih =>
    obtain ⟨ha, hb, hnext⟩ := h
    exact ⟨by omega, by omega, ih hnext (by omega) (by omega)⟩
  | unmark next ih => exact ih h hn hk
  | commit next ih => exact h.elim
  | rollback next ih => exact h.elim

/-- The writes of work may be bounded more loosely. -/
theorem Inner.weaken {W' : S.Write → Prop} (hW : ∀ w, W w → W' w) {p : Prog S α} {n k : Nat}
    (h : p.Inner W n k) : p.Inner W' n k := by
  induction p generalizing n k with
  | pure a => trivial
  | fail e => trivial
  | read marks next ih => exact fun d => ih d (h d)
  | lock l next ih => exact ih h
  | fresh next ih => exact fun m => ih m (h m)
  | write w next ih => exact ⟨hW w h.1, ih h.2⟩
  | undo a b next ih => exact ⟨h.1, h.2.1, ih h.2.2⟩
  | unmark next ih => exact ih h
  | commit next ih => exact h.elim
  | rollback next ih => exact h.elim

/-- Work that goes on with what its first part can return. -/
theorem Inner.bind_returns {p : Prog S α} {f : α → Prog S β} {P : α → Prop} {n k : Nat}
    (hp : p.Inner W n k) (hr : p.Returns P) (hf : ∀ a, P a → (f a).Work W) :
    (p.bind f).Inner W n k := by
  induction p generalizing n k with
  | pure a => exact (hf a hr).mono (Nat.zero_le n) (Nat.zero_le k)
  | fail e => trivial
  | read marks next ih => exact fun d => ih d (hp d) (hr d)
  | lock l next ih => exact ih hp hr
  | fresh next ih => exact fun m => ih m (hp m) (hr m)
  | write w next ih => exact ⟨hp.1, ih hp.2 hr⟩
  | undo a b next ih => exact ⟨hp.1, hp.2.1, ih hp.2.2 hr⟩
  | unmark next ih => exact ih hp hr
  | commit next ih => exact hp.elim
  | rollback next ih => exact hp.elim

/-- The first part of work is work. -/
theorem Inner.left {p : Prog S α} {f : α → Prog S β} {n k : Nat} (h : (p.bind f).Inner W n k) :
    p.Inner W n k := by
  induction p generalizing n k with
  | pure a => trivial
  | fail e => trivial
  | read marks next ih => exact fun d => ih d (h d)
  | lock l next ih => exact ih h
  | fresh next ih => exact fun m => ih m (h m)
  | write w next ih => exact ⟨h.1, ih h.2⟩
  | undo a b next ih => exact ⟨h.1, h.2.1, ih h.2.2⟩
  | unmark next ih => exact ih h
  | commit next ih => exact h.elim
  | rollback next ih => exact h.elim

theorem Inner.attemptFrom {p : Prog S α} {handler : S.Err → Prog S α} {n k : Nat}
    (hp : p.Inner W n k) (hh : ∀ e, (handler e).Work W) :
    (attemptFrom n k p handler).Inner W n k := by
  induction p generalizing n k with
  | pure a => trivial
  | fail e => exact ⟨Nat.le_refl n, Nat.le_refl k, (hh e).mono (Nat.zero_le _) (Nat.zero_le _)⟩
  | read marks next ih => exact fun d => ih d (hp d)
  | lock l next ih => exact ih hp
  | fresh next ih => exact fun m => ih m (hp m)
  | write w next ih => exact ⟨hp.1, ih hp.2⟩
  | undo a b next ih => exact ⟨hp.1, hp.2.1, ih hp.2.2⟩
  | unmark next ih => exact ih hp
  | commit next ih => exact hp.elim
  | rollback next ih => exact hp.elim

theorem Work.weaken {W' : S.Write → Prop} {p : Prog S α} (h : p.Work W)
    (hW : ∀ w, W w → W' w) : p.Work W' := Inner.weaken hW h

@[simp] theorem work_pure (a : α) : (Prog.pure a : Prog S α).Work W := trivial
@[simp] theorem work_fail (e : S.Err) : (Prog.fail e : Prog S α).Work W := trivial
@[simp] theorem work_view : (view : Prog S S.Db).Work W := fun _ => trivial
@[simp] theorem work_viewing (marks : S.Db → List S.Mark) : (viewing marks).Work W := fun _ => trivial
@[simp] theorem work_lockRow (l : S.Lock) : (lockRow l).Work W := trivial
@[simp] theorem work_newId : (newId : Prog S Nat).Work W := fun _ => trivial
@[simp] theorem work_forget : (forget : Prog S Unit).Work W := trivial
@[simp] theorem work_put {w : S.Write} : (put w).Work W ↔ W w := and_iff_left trivial

@[simp] theorem work_require (c : Bool) (e : S.Err) : (require c e : Prog S Unit).Work W := by
  cases c <;> trivial

@[simp] theorem work_ofExcept (x : Except S.Err α) : (ofExcept x : Prog S α).Work W := by
  cases x <;> trivial

/-- A bind whose second part is work for the values the first part may end with. -/
theorem Work.bind_returns {p : Prog S α} {f : α → Prog S β} {P : α → Prop} (hp : p.Work W)
    (hr : p.Returns P) (hf : ∀ a, P a → (f a).Work W) : (p.bind f).Work W :=
  Inner.bind_returns hp hr hf

theorem Work.bind {p : Prog S α} {f : α → Prog S β} (hp : p.Work W) (hf : ∀ a, (f a).Work W) :
    (p.bind f).Work W := hp.bind_returns (returns_true p) fun a _ => hf a

theorem Work.left {p : Prog S α} {f : α → Prog S β} (h : (p.bind f).Work W) : p.Work W :=
  Inner.left h

/-- Work in a savepoint, with a handler that is work. -/
theorem Work.attempt {p : Prog S α} {handler : S.Err → Prog S α} (hp : p.Work W)
    (hh : ∀ e, (handler e).Work W) : (p.attempt handler).Work W := Inner.attemptFrom hp hh

theorem Work.foldlM {body : σ → ι → Prog S σ} :
    ∀ (items : List ι) (st : σ), (∀ st, ∀ i ∈ items, (body st i).Work W) →
      (items.foldlM body st).Work W
  | [], st, _ => work_pure st
  | i :: items, st, h => by
    rw [List.foldlM_cons]
    exact (h st i (by simp)).bind fun st' =>
      Work.foldlM items st' fun st j hj => h st j (List.mem_cons_of_mem i hj)

/-- A loop whose turns are work as long as its state satisfies `I`, which they keep. -/
theorem Work.foldlM_returns {body : σ → ι → Prog S σ} {I : σ → Prop} :
    ∀ (items : List ι) (st : σ), I st →
      (∀ st, I st → ∀ i ∈ items, (body st i).Work W ∧ (body st i).Returns I) →
      (items.foldlM body st).Work W ∧ (items.foldlM body st).Returns I
  | [], st, hst, _ => ⟨work_pure st, hst⟩
  | i :: items, st, hst, h => by
    rw [List.foldlM_cons]
    obtain ⟨hwork, hreturns⟩ := h st hst i List.mem_cons_self
    have hrest := fun st' (hst' : I st') =>
      Work.foldlM_returns items st' hst' fun st h' j hj => h st h' j (List.mem_cons_of_mem i hj)
    exact ⟨hwork.bind_returns hreturns fun st' hst' => (hrest st' hst').1,
      hreturns.bind fun st' hst' => (hrest st' hst').2⟩

/-- What work leaves behind: the committed store untouched, and the log extended by writes that
satisfy `W`. -/
theorem Inner.exec {p : Prog S α} {n k : Nat} (hp : p.Inner W n k) {s : Session S}
    {base ws : List S.Write} (hlog : s.log = base ++ ws) (hn : ws.length = n) (hws : ∀ w ∈ ws, W w) :
    (p.exec s).2.committed = s.committed ∧ s.supply ≤ (p.exec s).2.supply ∧
      ∃ ws', (p.exec s).2.log = base ++ ws' ∧ ∀ w ∈ ws', W w := by
  induction p generalizing n k s ws with
  | pure a => exact ⟨rfl, Nat.le_refl _, ws, hlog, hws⟩
  | fail e => exact ⟨rfl, Nat.le_refl _, ws, hlog, hws⟩
  | read marks next ih => exact ih s.view (hp s.view) hlog hn hws
  | lock l next ih => exact ih hp hlog hn hws
  | fresh next ih =>
    obtain ⟨hc, hs, hl⟩ := ih s.supply (hp s.supply) (s := s.take) hlog hn hws
    exact ⟨hc, by simp only [Session.supply_take] at hs; exact Nat.le_of_succ_le hs, hl⟩
  | write w next ih =>
    have hlog' : (s.write w).log = base ++ (ws ++ [w]) := by
      simp only [Session.log_write, hlog, List.append_assoc]
    refine ih hp.2 hlog' (by simp [hn]) ?_
    intro w' hw'
    rcases List.mem_append.mp hw' with h | h
    · exact hws w' h
    · rw [List.mem_singleton.mp h]
      exact hp.1
  | undo a b next ih =>
    refine ih hp.2.2 (s := s.undo a) (Session.undo_log hlog (hn ▸ hp.1)) ?_ ?_
    · rw [List.length_take, hn]
      omega
    · exact fun w hw => hws w (List.mem_of_mem_take hw)
  | unmark next ih => exact ih hp hlog hn hws
  | commit next ih => exact hp.elim
  | rollback next ih => exact hp.elim

/-- What work leaves: the committed store as it was, no identifier given back, and a longer log. -/
theorem Work.exec {p : Prog S α} (hp : p.Work W) (s : Session S) :
    (p.exec s).2.committed = s.committed ∧ s.supply ≤ (p.exec s).2.supply ∧
      ∃ ws, (p.exec s).2.log = s.log ++ ws ∧ ∀ w ∈ ws, W w :=
  Inner.exec hp (List.append_nil _).symm rfl (fun _ hw => absurd hw List.not_mem_nil)

/-- A savepoint cuts the log of a failing program back to what it was. -/
private theorem exec_attemptFrom {p : Prog S α} {handler : S.Err → Prog S α} {n k : Nat}
    (hp : p.Inner W n k) {s : Session S} {base ws : List S.Write} (hlog : s.log = base ++ ws)
    (hn : ws.length = n) :
    (Prog.attemptFrom n k p handler).exec s = match p.exec s with
      | (.ok a, s') => (.ok a, s')
      | (.error e, s') => (handler e).exec { s' with log := base } := by
  induction p generalizing n k s ws with
  | pure a => rfl
  | fail e =>
    have hundo : s.undo n = { s with log := base } := by
      have hl := Session.undo_log hlog (Nat.le_of_eq hn.symm)
      rw [hn, Nat.sub_self, List.take_zero, List.append_nil] at hl
      rw [← hl]
      rfl
    simp only [Prog.attemptFrom, Prog.exec, hundo]
  | read marks next ih => exact ih s.view (hp s.view) hlog hn
  | lock l next ih => exact ih hp hlog hn
  | fresh next ih => exact ih s.supply (hp s.supply) (s := s.take) hlog hn
  | write w next ih =>
    have hlog' : (s.write w).log = base ++ (ws ++ [w]) := by
      simp only [Session.log_write, hlog, List.append_assoc]
    exact ih hp.2 hlog' (by simp [hn])
  | undo a b next ih =>
    refine ih hp.2.2 (s := s.undo a) (Session.undo_log hlog (hn ▸ hp.1)) ?_
    rw [List.length_take, hn]
    omega
  | unmark next ih => exact ih hp hlog hn
  | commit next ih => exact hp.elim
  | rollback next ih => exact hp.elim

/-- A failed savepoint leaves the log it found; the handler starts from there. -/
theorem Work.exec_attempt {p : Prog S α} (hp : p.Work W) (handler : S.Err → Prog S α)
    (s : Session S) :
    (p.attempt handler).exec s = match p.exec s with
      | (.ok a, s') => (.ok a, s')
      | (.error e, s') => (handler e).exec { s' with log := s.log } :=
  exec_attemptFrom hp (List.append_nil _).symm rfl

end Work

/-! ## Weakest preconditions -/

/-- Run alone from `s`, `p` ends in `Q` when it succeeds and in `E` when it fails. -/
def wp (p : Prog S α) (Q : α → Session S → Prop) (E : S.Err → Session S → Prop)
    (s : Session S) : Prop :=
  match p.exec s with
  | (.ok a, s') => Q a s'
  | (.error e, s') => E e s'

section Wp

variable {Q : α → Session S → Prop} {E : S.Err → Session S → Prop} {s : Session S}

@[simp] theorem wp_pure {a : α} : (Prog.pure a).wp Q E s ↔ Q a s := Iff.rfl
@[simp] theorem wp_fail {e : S.Err} : (Prog.fail e : Prog S α).wp Q E s ↔ E e s := Iff.rfl

/-- What the second part needs is what the first has to end with. -/
@[simp] theorem wp_bind {p : Prog S β} {f : β → Prog S α} :
    (p.bind f).wp Q E s ↔ p.wp (fun b s' => (f b).wp Q E s') E s := by
  unfold wp
  rw [exec_bind]
  rcases p.exec s with ⟨r, s'⟩
  cases r <;> exact Iff.rfl

@[simp] theorem wp_view {Q : S.Db → Session S → Prop} : view.wp Q E s ↔ Q s.view s := Iff.rfl
@[simp] theorem wp_viewing {Q : S.Db → Session S → Prop} {marks : S.Db → List S.Mark} :
    (viewing marks).wp Q E s ↔ Q s.view s := Iff.rfl
@[simp] theorem wp_lockRow {Q : Unit → Session S → Prop} {l : S.Lock} :
    (lockRow l).wp Q E s ↔ Q () s := Iff.rfl
@[simp] theorem wp_newId {Q : Nat → Session S → Prop} :
    newId.wp Q E s ↔ Q s.supply s.take := Iff.rfl
@[simp] theorem wp_put {Q : Unit → Session S → Prop} {w : S.Write} :
    (put w).wp Q E s ↔ Q () (s.write w) := Iff.rfl
@[simp] theorem wp_forget {Q : Unit → Session S → Prop} : forget.wp Q E s ↔ Q () s := Iff.rfl
@[simp] theorem wp_commitNow {Q : Unit → Session S → Prop} :
    commitNow.wp Q E s ↔ Q () s.commit := Iff.rfl
@[simp] theorem wp_rollbackNow {Q : Unit → Session S → Prop} :
    rollbackNow.wp Q E s ↔ Q () s.close := Iff.rfl

@[simp] theorem wp_require {Q : Unit → Session S → Prop} {c : Bool} {e : S.Err} :
    (require c e).wp Q E s ↔ if c then Q () s else E e s := by
  cases c <;> exact Iff.rfl

/-- A computation is read off where it succeeds. -/
theorem wp_ofExcept {x : Except S.Err α} (hQ : ∀ a, x = .ok a → Q a s)
    (hE : ∀ e, x = .error e → E e s) : (ofExcept x : Prog S α).wp Q E s := by
  cases x with
  | ok a => exact hQ a rfl
  | error e => exact hE e rfl

@[simp] theorem wp_ite {c : Prop} [Decidable c] {p q : Prog S α} :
    (if c then p else q).wp Q E s ↔ if c then p.wp Q E s else q.wp Q E s := by
  split <;> exact Iff.rfl

/-- Nothing is asked of the end. -/
theorem wp_trivial (p : Prog S α) (s : Session S) :
    p.wp (fun _ _ => True) (fun _ _ => True) s := by
  unfold wp
  split <;> trivial

/-- What is known at the end may be weakened. -/
theorem wp.mono {p : Prog S α} {Q' : α → Session S → Prop} {E' : S.Err → Session S → Prop}
    (h : p.wp Q E s) (hQ : ∀ a s', Q a s' → Q' a s') (hE : ∀ e s', E e s' → E' e s') :
    p.wp Q' E' s := by
  revert h
  unfold wp
  rcases p.exec s with ⟨r, s'⟩
  cases r with
  | ok a => exact hQ a s'
  | error e => exact hE e s'

/-- What is known of one execution in two ways is known together. -/
theorem wp.and {p : Prog S α} {Q' : α → Session S → Prop} {E' : S.Err → Session S → Prop}
    (h : p.wp Q E s) (h' : p.wp Q' E' s) :
    p.wp (fun a s' => Q a s' ∧ Q' a s') (fun e s' => E e s' ∧ E' e s') s := by
  revert h h'
  unfold wp
  rcases p.exec s with ⟨r, s'⟩
  cases r <;> exact And.intro

/-- A loop over a list keeps what each of its turns keeps. -/
theorem wp_foldlM {body : σ → ι → Prog S σ} {I : σ → Session S → Prop} :
    ∀ (items : List ι), (∀ i ∈ items, ∀ st s, I st s → (body st i).wp I E s) →
      ∀ (st : σ) (s : Session S), I st s → (items.foldlM body st).wp I E s
  | [], _, _, _, hs => hs
  | i :: items, turn, st, s, hs => by
    rw [List.foldlM_cons, bind_eq, wp_bind]
    exact (turn i (by simp) st s hs).mono
      (fun st' s' h => wp_foldlM items (fun j hj => turn j (List.mem_cons_of_mem i hj)) st' s' h)
      fun _ _ h => h

theorem Work.wp_attempt {W : S.Write → Prop} {p : Prog S α} (hp : p.Work W)
    {handler : S.Err → Prog S α}
    (h : p.wp Q (fun e s' => (handler e).wp Q E { s' with log := s.log }) s) :
    (p.attempt handler).wp Q E s := by
  revert h
  unfold wp
  rw [hp.exec_attempt handler s]
  rcases p.exec s with ⟨r, s'⟩
  cases r <;> exact id

/-- Work extends the log by writes that satisfy `W`, whatever else is known of it. -/
theorem Work.wp_frame {W : S.Write → Prop} {p : Prog S α} (hp : p.Work W) (s : Session S) :
    p.wp (fun _ s' => s'.committed = s.committed ∧ s.supply ≤ s'.supply ∧
        ∃ ws, s'.log = s.log ++ ws ∧ ∀ w ∈ ws, W w)
      (fun _ s' => s'.committed = s.committed ∧ s.supply ≤ s'.supply ∧
        ∃ ws, s'.log = s.log ++ ws ∧ ∀ w ∈ ws, W w) s := by
  have h := hp.exec s
  unfold wp
  rcases he : p.exec s with ⟨r, s'⟩
  rw [he] at h
  cases r <;> exact h

/-- A program that writes nothing leaves what it found. -/
theorem Work.wp_reads {p : Prog S α} (hp : p.Work fun _ => False) (s : Session S) :
    p.wp (fun _ s' => s'.view = s.view ∧ s.supply ≤ s'.supply)
      (fun _ s' => s'.view = s.view ∧ s.supply ≤ s'.supply) s := by
  have hsame : ∀ s' : Session S, (s'.committed = s.committed ∧ s.supply ≤ s'.supply ∧
      ∃ ws, s'.log = s.log ++ ws ∧ ∀ w ∈ ws, False) → s'.view = s.view ∧ s.supply ≤ s'.supply := by
    rintro s' ⟨hc, hs, ws, hlog, hws⟩
    have hnil : ws = [] := List.eq_nil_iff_forall_not_mem.mpr hws
    refine ⟨?_, hs⟩
    simp only [Session.view, hc, hlog, hnil, List.append_nil]
  exact (hp.wp_frame s).mono (fun _ s' h => hsame s' h) fun _ s' h => hsame s' h

/-- Work keeps what none of its writes changes. -/
theorem Work.wp_keeps {W : S.Write → Prop} {γ : Type} {f : S.Db → γ}
    (hf : ∀ w d, W w → f (S.apply w d) = f d) {p : Prog S α} (hp : p.Work W) (s : Session S) :
    p.wp (fun _ s' => s.supply ≤ s'.supply ∧ f s'.view = f s.view)
      (fun _ s' => s.supply ≤ s'.supply ∧ f s'.view = f s.view) s := by
  have hsame : ∀ s' : Session S, (s'.committed = s.committed ∧ s.supply ≤ s'.supply ∧
      ∃ ws, s'.log = s.log ++ ws ∧ ∀ w ∈ ws, W w) →
      s.supply ≤ s'.supply ∧ f s'.view = f s.view := by
    rintro s' ⟨hc, hs, ws, hlog, hws⟩
    refine ⟨hs, ?_⟩
    rw [Session.view, hc, hlog, Schema.replay_append]
    exact Schema.replay_keeps (fun w hw d => hf w d (hws w hw)) s.view
  exact (hp.wp_frame s).mono (fun _ s' h => hsame s' h) fun _ s' h => hsame s' h

/-- Work that fails has committed nothing. -/
theorem Work.wp_kept {W : S.Write → Prop} {p : Prog S α} (hp : p.Work W)
    (h : p.wp Q (fun _ _ => True) s) :
    p.wp Q (fun _ s' => s'.committed = s.committed ∧ s.supply ≤ s'.supply) s :=
  (h.and (hp.wp_frame s)).mono (fun _ _ h => h.1) fun _ _ h => ⟨h.2.1, h.2.2.1⟩

/-- A request commits where its program succeeds, and closes the session where it fails. -/
theorem wp.request {p : Prog S α} (h : p.wp Q E s) :
    (∃ a s', Q a s' ∧ p.request s = (.ok a, s'.commit)) ∨
      ∃ e s', E e s' ∧ p.request s = (.error e, s'.close) := by
  unfold Prog.wp at h
  unfold Prog.request
  rcases he : p.exec s with ⟨r, s'⟩
  rw [he] at h
  cases r with
  | ok a => exact .inl ⟨a, s', h, rfl⟩
  | error e => exact .inr ⟨e, s', h, rfl⟩

/-- What holds of every value a program may end with holds of the value it ends with. -/
theorem Returns.wp {P : α → Prop} {p : Prog S α} (hr : p.Returns P) (h : p.wp Q E s) :
    p.wp (fun a s' => P a ∧ Q a s') E s := by
  induction p generalizing s with
  | pure a => exact ⟨hr, h⟩
  | fail e => exact h
  | read marks next ih => exact ih s.view (hr s.view) h
  | lock l next ih => exact ih hr h
  | fresh next ih => exact ih s.supply (hr s.supply) (s := s.take) h
  | write w next ih => exact ih hr (s := s.write w) h
  | undo n k next ih => exact ih hr (s := s.undo n) h
  | unmark next ih => exact ih hr h
  | commit next ih => exact ih hr (s := s.commit) h
  | rollback next ih => exact ih hr (s := s.close) h

end Wp

/-! ## Loops by what holds before each turn -/

section EachTurn

variable {P : σ → ι → Session S → Prop} {body : σ → ι → Prog S σ} {E : S.Err → Session S → Prop}
  {I : σ → Session S → Prop}

/-- `P` holds before every turn that the loop comes to. -/
def EachTurn (P : σ → ι → Session S → Prop) (body : σ → ι → Prog S σ) :
    List ι → σ → Session S → Prop
  | [], _, _ => True
  | i :: items, st, s =>
    P st i s ∧ (body st i).wp (fun st' s' => EachTurn P body items st' s') (fun _ _ => True) s

/-- What holds before any turn holds before each. -/
theorem EachTurn.of_all : ∀ {items : List ι}, (∀ i ∈ items, ∀ st s, P st i s) →
    ∀ (st : σ) (s : Session S), EachTurn P body items st s
  | [], _, _, _ => trivial
  | i :: items, h, st, s => by
    refine ⟨h i List.mem_cons_self st s,
      (wp_trivial (body st i) s).mono (fun st' s' _ => ?_) fun _ _ _ => trivial⟩
    exact EachTurn.of_all (fun j hj => h j (List.mem_cons_of_mem i hj)) st' s'

/-- A loop keeps what its turns keep wherever `P` holds before them. -/
theorem EachTurn.wp_foldlM : ∀ {items : List ι},
    (∀ i ∈ items, ∀ st s, I st s → P st i s → (body st i).wp I E s) →
      ∀ {st : σ} {s : Session S}, EachTurn P body items st s → I st s →
        (items.foldlM body st).wp I E s
  | [], _, _, _, _, hs => hs
  | i :: items, turn, st, s, hmeets, hs => by
    rw [List.foldlM_cons, bind_eq, wp_bind]
    refine ((turn i List.mem_cons_self st s hs hmeets.1).and hmeets.2).mono
      (fun st' s' h => ?_) fun _ _ h => h.1
    exact EachTurn.wp_foldlM (fun j hj => turn j (List.mem_cons_of_mem i hj)) h.2 h.1

/-- When `P` says exactly which turns return, the loop returns exactly when it meets `P`. -/
theorem foldlM_returns_iff : ∀ {items : List ι},
    (∀ i ∈ items, ∀ st s, I st s → (body st i).wp I (fun _ _ => True) s ∧
      ((body st i).wp (fun _ _ => True) (fun _ _ => False) s ↔ P st i s)) →
      ∀ {st : σ} {s : Session S}, I st s →
        ((items.foldlM body st).wp (fun _ _ => True) (fun _ _ => False) s ↔
          EachTurn P body items st s)
  | [], _, _, _, _ => Iff.rfl
  | i :: items, turn, st, s, hs => by
    obtain ⟨hkeeps, hreturns⟩ := turn i List.mem_cons_self st s hs
    have hrest : ∀ st' s', I st' s' →
        ((items.foldlM body st').wp (fun _ _ => True) (fun _ _ => False) s' ↔
          EachTurn P body items st' s') := fun st' s' h' =>
      foldlM_returns_iff (fun j hj => turn j (List.mem_cons_of_mem i hj)) h'
    rw [List.foldlM_cons, bind_eq, wp_bind, EachTurn, ← hreturns]
    constructor
    · intro h
      refine ⟨h.mono (fun _ _ _ => trivial) fun _ _ h => h, ?_⟩
      exact (hkeeps.and h).mono (fun st' s' h => (hrest st' s' h.1).mp h.2) fun _ _ _ => trivial
    · intro h
      exact ((hkeeps.and h.1).and h.2).mono (fun st' s' h => (hrest st' s' h.1.1).mpr h.2)
        fun _ _ h => h.1.2

end EachTurn

/-! ## Programs that only read -/

/-- `p` reads and does nothing else. -/
def Reads : Prog S α → Prop
  | .pure _ => True
  | .fail _ => True
  | .read _ next => ∀ d, (next d).Reads
  | _ => False

/-- What a program ends with over given contents. -/
def answer (p : Prog S α) (d : S.Db) : Except S.Err α :=
  (p.exec { committed := d, supply := 0 }).1

@[simp] theorem answer_pure (a : α) (d : S.Db) : (Prog.pure a).answer d = .ok a := rfl
@[simp] theorem answer_fail (e : S.Err) (d : S.Db) :
    (Prog.fail e : Prog S α).answer d = .error e := rfl
@[simp] theorem answer_view (d : S.Db) : (view : Prog S S.Db).answer d = .ok d := rfl

@[simp] theorem answer_ofExcept (x : Except S.Err α) (d : S.Db) :
    (ofExcept x : Prog S α).answer d = x := by
  cases x <;> rfl

@[simp] theorem reads_pure (a : α) : (Prog.pure a : Prog S α).Reads := trivial
@[simp] theorem reads_fail (e : S.Err) : (Prog.fail e : Prog S α).Reads := trivial
@[simp] theorem reads_view : (view : Prog S S.Db).Reads := fun _ => trivial

@[simp] theorem reads_ofExcept (x : Except S.Err α) : (ofExcept x : Prog S α).Reads := by
  cases x <;> trivial

/-- A program that only reads, made of two that do. -/
theorem Reads.bind {p : Prog S α} {f : α → Prog S β} (hp : p.Reads) (hf : ∀ a, (f a).Reads) :
    (p.bind f).Reads := by
  induction p with
  | pure a => exact hf a
  | fail e => trivial
  | read marks next ih => exact fun d => ih d (hp d)
  | fresh _ _ => exact hp.elim
  | lock _ _ _ => exact hp.elim
  | write _ _ _ => exact hp.elim
  | undo _ _ _ _ => exact hp.elim
  | unmark _ _ => exact hp.elim
  | commit _ _ => exact hp.elim
  | rollback _ _ => exact hp.elim

/-- Its outcome depends on what the session shows only, and the session stays as it is. -/
theorem Reads.exec {p : Prog S α} (hp : p.Reads) (s : Session S) :
    p.exec s = (p.answer s.view, s) := by
  induction p with
  | pure a => rfl
  | fail e => rfl
  | read marks next ih => exact ih s.view (hp s.view)
  | fresh _ _ => exact hp.elim
  | lock _ _ _ => exact hp.elim
  | write _ _ _ => exact hp.elim
  | undo _ _ _ _ => exact hp.elim
  | unmark _ _ => exact hp.elim
  | commit _ _ => exact hp.elim
  | rollback _ _ => exact hp.elim

/-- Its answer is that of its parts, over one store. -/
theorem Reads.answer_bind {p : Prog S α} (hp : p.Reads) (f : α → Prog S β) (d : S.Db) :
    (p.bind f).answer d = p.answer d >>= fun a => (f a).answer d := by
  have hview : ({ committed := d, supply := 0 } : Session S).view = d := rfl
  rw [answer, exec_bind, hp.exec, hview]
  cases p.answer d <;> rfl

/-- Such a program is known by its answer. -/
theorem Reads.wp_iff {p : Prog S α} (hp : p.Reads) {Q : α → Session S → Prop}
    {E : S.Err → Session S → Prop} {s : Session S} :
    p.wp Q E s ↔ (∀ a, p.answer s.view = .ok a → Q a s) ∧
      ∀ e, p.answer s.view = .error e → E e s := by
  unfold wp
  rw [hp.exec]
  cases p.answer s.view with
  | ok a => simp
  | error e => simp

/-- What holds of every value a program may end with holds of its answer. -/
theorem Returns.answer {P : α → Prop} {p : Prog S α} (hp : p.Returns P)
    {d : S.Db} {a : α} (h : p.answer d = .ok a) : P a := by
  have hwp := hp.wp (wp_trivial p { committed := d, supply := 0 })
  unfold Prog.wp at hwp
  unfold Prog.answer at h
  rcases he : p.exec { committed := d, supply := 0 } with ⟨r, s'⟩
  rw [he] at hwp h
  cases h
  exact hwp.1

end Prog
end Store
