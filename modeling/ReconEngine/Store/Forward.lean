import ReconEngine.Store.Protocol

/-!
# Stores that only move forward

Where a commit never takes away what a mark stands for, no run can disturb a client, and nothing has
to be asked of the schedule. The stores of a run are then related as single commits relate them.

**The law** (`Ready.run_forward`): clients that follow such a protocol do so throughout every run,
and the store at its end is reached from the first one by what single commits may do.

**What it does not establish.** Anything for marks that a commit can take away; those need a
condition on the schedule (`Store.Protocol`).
-/

set_option autoImplicit false

namespace Store.Protocol

variable {S : Schema} (P : Protocol S)

/-- Commits compose, and leave everything that is marked as it was. -/
structure Forward : Prop where
  refl : ∀ d, P.moves d d
  trans : ∀ d d' d'', P.moves d d' → P.moves d' d'' → P.moves d d''
  keeps : ∀ d d', P.moves d d' → ∀ m, P.same m d d'

variable {P}

/-- A store that has to be expected after one that has to be expected, by a client that has taken
no more than locks and identifiers in the meantime. -/
theorem Later.through {k : Local S} {n m n' : Nat} {d d' : S.Db} {held : List S.Lock}
    {log : List S.Write} (h : P.Later k n d) (hheld : ∀ l ∈ k.held, l ∈ held) (hm : n ≤ m)
    (h' : P.Later ⟨held, k.marks, log, m, d⟩ n' d') : P.Later k n' d' :=
  h.step (Nat.le_trans hm h'.supply) h'.inv (fun l hl => h'.agree l (hheld l hl)) h'.same

/-- Clients that have not started are ready for every protocol that their programs follow. -/
theorem Ready.unstarted {ι : Type} {program : ι → Prog S Unit} {requests : List ι} {d : S.Db}
    {n : Nat} (hinv : P.inv n d)
    (h : ∀ request ∈ requests, ∀ k : Local S, k.log = [] →
      P.Follows (program request) (fun _ _ => True) (fun _ _ => True) k) :
    P.Ready
      { db := d, supply := n, clients := requests.map fun request => { prog := program request } }
    where
  inv := hinv
  exclusive := by
    intro i j l hi
    obtain ⟨c, hc, hl⟩ := hi
    obtain ⟨request, -, rfl⟩ := List.mem_map.mp (List.mem_of_getElem? hc)
    exact absurd hl List.not_mem_nil
  knows := by
    intro i c hc
    obtain ⟨request, hrequest, rfl⟩ := List.mem_map.mp (List.mem_of_getElem? hc)
    exact ⟨n, d, Later.refl hinv, h request hrequest _ rfl⟩

variable [DecidableEq S.Lock]

/-- One step of any client keeps every client to the protocol, and is a move of the store. -/
theorem Ready.step_forward (hforward : P.Forward) {s s' : System S} {e : Event} (hs : P.Ready s)
    (h : s.step e = some s') : P.Ready s' ∧ P.moves s.db s'.db := by
  have hmoves : P.moves s.db s'.db := by
    cases e with
    | kill i =>
      rw [(System.step_kill h).1]
      exact hforward.refl s.db
    | run i =>
      obtain ⟨c, c', hc, hadv, -⟩ := System.step_run h
      obtain ⟨-, -, -, hsame | hmoves, -⟩ := (hs.knows i c hc).advance hadv
      · rw [hsame]
        exact hforward.refl s.db
      · exact hmoves
  have hkept := hs.step h fun _ _ _ _ m _ => hforward.keeps s.db s'.db hmoves m
  exact ⟨hkept.1, hmoves⟩

/-- So does every run. -/
theorem Ready.run_forward (hforward : P.Forward) :
    ∀ (es : List Event) {s s' : System S}, P.Ready s → s.run es = some s' →
      P.Ready s' ∧ P.moves s.db s'.db
  | [], s, s', hs, h => by
    cases h
    exact ⟨hs, hforward.refl s.db⟩
  | e :: es, s, s', hs, h => by
    obtain ⟨t, ht, hrest⟩ := Option.bind_eq_some_iff.mp h
    obtain ⟨hready, hmoves⟩ := hs.step_forward hforward ht
    obtain ⟨hready', hmoves'⟩ := Ready.run_forward hforward es hready hrest
    exact ⟨hready', hforward.trans _ _ _ hmoves hmoves'⟩

end Store.Protocol
