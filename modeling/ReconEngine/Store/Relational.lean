import ReconEngine.Store.Handler

/-!
# Two programs side by side

`Prog.both` runs two programs from two sessions and asks that they end alike: both with a value or
both with an error, and in related sessions. The rules follow the programs: a bind relates its
parts, a loop over one list relates its turns.

**What it does not establish.** Programs of different shape need a common form first: the rules
relate statement to statement, and a loop to a loop over the same list.
-/

set_option autoImplicit false

namespace Store.Prog

variable {S : Schema} {α β γ δ ι σ τ : Type}

/-- Both programs succeed in `Q`, or both fail in `E`. -/
def both (p : Prog S α) (q : Prog S β) (Q : α → β → Session S → Session S → Prop)
    (E : S.Err → S.Err → Session S → Session S → Prop) (s t : Session S) : Prop :=
  p.wp (fun a s' => q.wp (fun b t' => Q a b s' t') (fun _ _ => False) t)
    (fun e s' => q.wp (fun _ _ => False) (fun e' t' => E e e' s' t') t) s

section

variable {Q : α → β → Session S → Session S → Prop}
  {E : S.Err → S.Err → Session S → Session S → Prop} {s t : Session S}

@[simp] theorem both_pure {a : α} {b : β} :
    both (.pure a) (.pure b) Q E s t ↔ Q a b s t := Iff.rfl

@[simp] theorem both_fail {e e' : S.Err} :
    both (.fail e : Prog S α) (.fail e' : Prog S β) Q E s t ↔ E e e' s t := Iff.rfl

/-- Two programs that cannot fail are related by what each of them does. -/
theorem both_of_wp {p : Prog S α} {q : Prog S β} {P : α → Session S → Prop}
    {R : β → Session S → Prop} (hp : p.wp P (fun _ _ => False) s)
    (hq : q.wp R (fun _ _ => False) t) (h : ∀ a b s' t', P a s' → R b t' → Q a b s' t') :
    both p q Q E s t :=
  hp.mono (fun a s' ha => hq.mono (fun b t' hb => h a b s' t' ha hb) fun _ _ h => h)
    fun _ _ h => h.elim

/-- Related parts make related programs. -/
theorem both_bind {p : Prog S γ} {q : Prog S δ} {f : γ → Prog S α} {g : δ → Prog S β}
    {R : γ → δ → Session S → Session S → Prop} (h : both p q R E s t)
    (hfg : ∀ c d s' t', R c d s' t' → both (f c) (g d) Q E s' t') :
    both (p.bind f) (q.bind g) Q E s t := by
  unfold both Prog.wp at h hfg ⊢
  rw [exec_bind]
  rcases hp : p.exec s with ⟨r, s'⟩
  rcases hq : q.exec t with ⟨r', t'⟩
  rw [hp] at h
  cases r with
  | ok c =>
    simp only [hq] at h
    cases r' with
    | ok d =>
      have hrest := hfg c d s' t' h
      simp only [exec_bind, hq]
      exact hrest
    | error e' => exact h.elim
  | error e =>
    simp only [hq] at h
    cases r' with
    | ok d => exact h.elim
    | error e' =>
      simp only [exec_bind, hq]
      exact h

/-- Two loops over one list keep what their turns keep. -/
theorem both_foldlM {body : σ → ι → Prog S σ} {body' : τ → ι → Prog S τ}
    {I : σ → τ → Session S → Session S → Prop} :
    ∀ (items : List ι), (∀ i ∈ items, ∀ st st' s t, I st st' s t →
        both (body st i) (body' st' i) I E s t) →
      ∀ (st : σ) (st' : τ) {s t : Session S}, I st st' s t →
        both (items.foldlM body st) (items.foldlM body' st') I E s t
  | [], _, _, _, _, _, h => h
  | i :: items, turn, st, st', s, t, h => by
    rw [List.foldlM_cons, List.foldlM_cons, bind_eq, bind_eq]
    refine both_bind (turn i List.mem_cons_self st st' s t h) fun st₁ st₁' s' t' h' => ?_
    exact both_foldlM items (fun j hj => turn j (List.mem_cons_of_mem i hj)) st₁ st₁' h'

end

end Store.Prog
