import ReconEngine.Store.Handler

/-!
# Requests

A request runs one program in a transaction of its own: what the program wrote is committed where
it succeeds, and dropped where it fails. `Keeps` says that a program keeps an invariant of the
store and of its supply of identifiers. It composes as programs do, and an invariant that every
program of a family keeps holds after any history of requests for them.

**What it does not establish.** Requests of a history do not overlap. Their interleaving is the
subject of `Store.System`, and an invariant of requests holds there only with a protocol.
-/

set_option autoImplicit false

namespace Store

variable {S : Schema} {α β ι σ : Type}

/-- What stays between two requests: the store, and the next unused identifier. -/
structure Committed (S : Schema) where
  db : S.Db
  supply : Nat

namespace Committed

/-- A transaction that has just begun. -/
def session (c : Committed S) : Session S := { committed := c.db, supply := c.supply }

/-- One request. -/
def serve (c : Committed S) (p : Prog S α) : Committed S :=
  let s := (p.request c.session).2
  { db := s.committed, supply := s.supply }

/-- Requests one after another. -/
def history (program : ι → Prog S α) (c : Committed S) (ops : List ι) : Committed S :=
  ops.foldl (fun c op => c.serve (program op)) c

@[simp] theorem session_view (c : Committed S) : c.session.view = c.db := rfl
@[simp] theorem session_supply (c : Committed S) : c.session.supply = c.supply := rfl

end Committed

namespace Prog

/-- The program commits nothing itself, and keeps `I` where it succeeds. -/
structure Keeps (I : Nat → S.Db → Prop) (p : Prog S α) : Prop where
  work : p.Work fun _ => True
  kept : ∀ s : Session S, I s.supply s.view →
    p.wp (fun _ s' => I s'.supply s'.view) (fun _ _ => True) s

/-- The invariant holds for more identifiers in use. -/
def Grows (I : Nat → S.Db → Prop) : Prop := ∀ n n' d, n ≤ n' → I n d → I n' d

section

variable {I : Nat → S.Db → Prop}

theorem keeps_pure (a : α) : (Prog.pure a : Prog S α).Keeps I := ⟨work_pure _, fun _ h => h⟩

theorem keeps_fail (e : S.Err) : (Prog.fail e : Prog S α).Keeps I :=
  ⟨work_fail _, fun _ _ => trivial⟩

/-- An invariant is kept by two programs, one after the other. -/
theorem Keeps.bind {p : Prog S α} {f : α → Prog S β} (hp : p.Keeps I) (hf : ∀ a, (f a).Keeps I) :
    (p.bind f).Keeps I where
  work := Work.bind hp.work fun a => (hf a).work
  kept s hs := by
    rw [wp_bind]
    exact (hp.kept s hs).mono (fun a s' hs' => (hf a).kept s' hs') fun _ _ _ => trivial

theorem Keeps.foldlM {body : σ → ι → Prog S σ} (h : ∀ st i, (body st i).Keeps I) :
    ∀ (items : List ι) (st : σ), (items.foldlM body st).Keeps I
  | [], st => keeps_pure st
  | i :: items, st => by
    rw [List.foldlM_cons]
    exact (h st i).bind fun st' => Keeps.foldlM h items st'

/-- Writes that each keep the invariant. -/
theorem Keeps.of_writes {W : S.Write → Prop} {p : Prog S α} (hgrows : Grows I)
    (hW : ∀ n w d, W w → I n d → I n (S.apply w d)) (hp : p.Work W) : p.Keeps I where
  work := hp.weaken fun _ _ => trivial
  kept s hs := by
    have hreplay : ∀ (ws : List S.Write) (d : S.Db), (∀ w ∈ ws, W w) → I s.supply d →
        I s.supply (S.replay ws d) := by
      intro ws
      induction ws with
      | nil => exact fun _ _ hd => hd
      | cons w ws ih =>
        intro d hws hd
        exact ih _ (fun w' hw' => hws w' (List.mem_cons_of_mem w hw'))
          (hW _ w d (hws w List.mem_cons_self) hd)
    refine (hp.wp_frame s).mono ?_ fun _ _ _ => trivial
    rintro _ s' ⟨hcommitted, hsupply, ws, hlog, hws⟩
    have hview : s'.view = S.replay ws s.view := by
      rw [Session.view, Session.view, hcommitted, hlog, Schema.replay_append]
    rw [hview]
    exact hgrows _ _ _ hsupply (hreplay ws s.view hws hs)

/-- A program that only reads keeps every invariant. -/
theorem Keeps.of_reads {p : Prog S α} (hgrows : Grows I) (hp : p.Work fun _ => False) : p.Keeps I :=
  Keeps.of_writes hgrows (fun _ _ _ hw _ => hw.elim) hp

/-- A savepoint: what failed in it left nothing behind. -/
theorem Keeps.attempt {p : Prog S α} {handler : S.Err → Prog S α} (hgrows : Grows I)
    (hp : p.Keeps I) (hh : ∀ e, (handler e).Keeps I) : (p.attempt handler).Keeps I where
  work := Work.attempt hp.work fun e => (hh e).work
  kept s hs := by
    apply hp.work.wp_attempt
    refine ((hp.kept s hs).and (hp.work.wp_frame s)).mono (fun _ _ h => h.1) ?_
    rintro e s' ⟨-, hcommitted, hsupply, -⟩
    refine (hh e).kept _ ?_
    have hview : Session.view { s' with log := s.log } = s.view := by
      simp only [Session.view, hcommitted]
    rw [hview]
    exact hgrows _ _ _ hsupply hs

/-- A second invariant, which the program may need the first one for. -/
theorem Keeps.and_given {J : Nat → S.Db → Prop} {p : Prog S α} (h : p.Keeps I)
    (h' : ∀ s : Session S, I s.supply s.view → J s.supply s.view →
      p.wp (fun _ s' => J s'.supply s'.view) (fun _ _ => True) s) :
    p.Keeps fun n d => I n d ∧ J n d where
  work := h.work
  kept s hs := ((h.kept s hs.1).and (h' s hs.1 hs.2)).mono (fun _ _ h => h) fun _ _ _ => trivial

theorem Keeps.and {J : Nat → S.Db → Prop} {p : Prog S α} (h : p.Keeps I) (h' : p.Keeps J) :
    p.Keeps fun n d => I n d ∧ J n d :=
  h.and_given fun s _ hs => h'.kept s hs

/-- A program that ends well ends so with everything that it ends with. -/
theorem wp_forall {κ : Sort*} {p : Prog S α} {Q : κ → α → Session S → Prop} {s : Session S}
    (h : ∀ k, p.wp (Q k) (fun _ _ => True) s) :
    p.wp (fun a s' => ∀ k, Q k a s') (fun _ _ => True) s := by
  unfold wp at h ⊢
  revert h
  rcases p.exec s with ⟨r, s'⟩
  cases r with
  | ok a => exact id
  | error e => exact fun _ => trivial

/-- A request ends as its program does, or changes nothing. -/
theorem wp.serve {Q : Nat → S.Db → Prop} {p : Prog S α} (hp : p.Work fun _ => True)
    {c : Committed S}
    (h : p.wp (fun _ s' => Q s'.supply s'.view) (fun _ _ => True) c.session) :
    Q (c.serve p).supply (c.serve p).db ∨
      (c.serve p).db = c.db ∧ c.supply ≤ (c.serve p).supply := by
  have hspec := hp.wp_kept h
  unfold Committed.serve
  rcases hspec.request with ⟨_, s', hs', hrequest⟩ | ⟨_, s', ⟨hcommitted, hsupply⟩, hrequest⟩
  · rw [hrequest]
    exact Or.inl hs'
  · rw [hrequest]
    exact Or.inr ⟨hcommitted, hsupply⟩

/-- A request keeps what its program keeps. -/
theorem Keeps.serve {p : Prog S α} (hgrows : Grows I) (hp : p.Keeps I) {c : Committed S}
    (hc : I c.supply c.db) : I (c.serve p).supply (c.serve p).db := by
  rcases (hp.kept c.session hc).serve hp.work with hkept | ⟨hsame, hsupply⟩
  · exact hkept
  · rw [hsame]
    exact hgrows _ _ _ hsupply hc

/-- So does every history of requests. -/
theorem Keeps.history {program : ι → Prog S α} (hgrows : Grows I)
    (h : ∀ op, (program op).Keeps I) {c : Committed S} (hc : I c.supply c.db) (ops : List ι) :
    I (c.history program ops).supply (c.history program ops).db := by
  induction ops generalizing c with
  | nil => exact hc
  | cons op ops ih => exact ih ((h op).serve hgrows hc)

end

end Prog

end Store
