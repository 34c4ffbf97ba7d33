import ReconEngine.Store.System

/-!
# Which clients wait for which

**The law** (`Deadlock.waits`): every client of a cycle is waited for and waits, for one that waits
itself, and so on. To exclude deadlocks it is enough to exclude a few waits in a row.

The waits of a state can be computed (`mem_waits`).

**What it does not establish.** Nothing is said about clients that wait for one that has simply
stopped: they go on once it ends or is lost.
-/

set_option autoImplicit false

namespace Store

variable {S : Schema}

namespace System

/-- Client `i` asks for the lock `l`, which another client `j` holds. -/
def WaitsFor (s : System S) (i j : Nat) (l : S.Lock) : Prop := i ≠ j ∧ s.Asks i l ∧ s.Holds j l

/-- To wait for a client is to wait for it because of some lock. -/
theorem waits_iff {s : System S} {i j : Nat} : s.Waits i j ↔ ∃ l, s.WaitsFor i j l :=
  ⟨fun ⟨hne, l, h⟩ => ⟨l, hne, h⟩, fun ⟨l, hne, h⟩ => ⟨hne, l, h⟩⟩

/-- A client of a cycle is waited for, and the one it waits for is in the cycle. -/
theorem cycle_step {r : Nat → Nat → Prop} {i : Nat} (h : Relation.TransGen r i i) :
    ∃ m j, r m i ∧ r i j ∧ Relation.TransGen r j j := by
  obtain ⟨m, hto, hlast⟩ := Relation.TransGen.tail'_iff.mp h
  obtain ⟨j, hfirst, hfrom⟩ := Relation.TransGen.head'_iff.mp h
  exact ⟨m, j, hlast, hfirst, Relation.TransGen.tail' hfrom hfirst⟩

/-- **A deadlock holds waits in a row**: five of them, the first one for a client that waits. -/
theorem Deadlock.waits {s : System S} (h : s.Deadlock) :
    ∃ m i j k n o, s.Waits m i ∧ s.Waits i j ∧ s.Waits j k ∧ s.Waits k n ∧ s.Waits n o := by
  obtain ⟨i, hcycle⟩ := h
  obtain ⟨m, j, hmi, hij, hj⟩ := cycle_step hcycle
  obtain ⟨-, k, -, hjk, hk⟩ := cycle_step hj
  obtain ⟨-, n, -, hkn, hn⟩ := cycle_step hk
  obtain ⟨-, o, -, hno, -⟩ := cycle_step hn
  exact ⟨m, i, j, k, n, o, hmi, hij, hjk, hkn, hno⟩

/-! ## Computing the waits -/

/-- The lock that a client asks for. -/
def asked (s : System S) (i : Nat) : Option S.Lock :=
  match s.clients[i]? with
  | some ⟨.lock l _, _, _, _⟩ => some l
  | _ => none

theorem asked_iff {s : System S} {i : Nat} {l : S.Lock} : s.asked i = some l ↔ s.Asks i l := by
  unfold asked Asks
  constructor
  · intro h
    split at h
    · rename_i next held marks log hclient
      cases h
      exact ⟨_, next, hclient, rfl⟩
    · cases h
  · rintro ⟨⟨prog, held, marks, log⟩, next, hclient, rfl⟩
    rw [hclient]

theorem Asks.lt {s : System S} {i : Nat} {l : S.Lock} (h : s.Asks i l) : i < s.clients.length := by
  obtain ⟨c, next, hc, -⟩ := h
  exact (List.getElem?_eq_some_iff.mp hc).1

theorem Holds.lt {s : System S} {i : Nat} {l : S.Lock} (h : s.Holds i l) : i < s.clients.length := by
  obtain ⟨c, hc, -⟩ := h
  exact (List.getElem?_eq_some_iff.mp hc).1

variable [DecidableEq S.Lock]

/-- All waits: who waits, for whom, and for which lock. -/
def waits (s : System S) : List (Nat × Nat × S.Lock) :=
  (List.range s.clients.length).flatMap fun i =>
    match s.asked i with
    | none => []
    | some l => ((List.range s.clients.length).filter fun j =>
        i != j && (s.clients[j]?.any fun c => c.held.contains l)).map fun j => (i, j, l)

/-- The waits that are computed are the waits of the state. -/
theorem mem_waits {s : System S} {i j : Nat} {l : S.Lock} :
    (i, j, l) ∈ s.waits ↔ s.WaitsFor i j l := by
  have hholds : ∀ j l, s.Holds j l ↔ (s.clients[j]?.any fun c => c.held.contains l) = true := by
    intro j l
    unfold Holds
    cases s.clients[j]? <;> simp
  unfold waits WaitsFor
  rw [List.mem_flatMap]
  constructor
  · rintro ⟨i', -, hi'⟩
    split at hi'
    · cases hi'
    · rename_i l' hasked
      obtain ⟨j', hj', heq⟩ := List.mem_map.mp hi'
      cases heq
      have hcond := (List.mem_filter.mp hj').2
      rw [Bool.and_eq_true, bne_iff_ne] at hcond
      exact ⟨hcond.1, asked_iff.mp hasked, (hholds _ _).mpr hcond.2⟩
  · rintro ⟨hne, hasks, hheld⟩
    refine ⟨i, List.mem_range.mpr hasks.lt, ?_⟩
    rw [asked_iff.mpr hasks]
    refine List.mem_map.mpr ⟨j, List.mem_filter.mpr ⟨List.mem_range.mpr hheld.lt, ?_⟩, rfl⟩
    rw [Bool.and_eq_true, bne_iff_ne]
    exact ⟨hne, (hholds _ _).mp hheld⟩

end System
end Store
