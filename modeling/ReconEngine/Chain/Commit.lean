import Mathlib.Data.List.Induction
import Mathlib.Data.List.Forall2

/-!
# Hash chains

An entry stores a hash of itself and names its predecessor's hash. `Linked` says that a list of
entries is such a chain from a given predecessor on, `tip` is the hash it ends in, and
`Linked.commit` is what a tip is worth: two chains of one length with one tip have the same
entries, as far as the hash separates entries at all. The induction runs from the tip backwards.

The entries, the hashes and the relation "same entry" are parameters.

**What it does not establish.** A chain that is shorter by its last entries has another tip, and is
a chain all the same: without a tip from elsewhere nothing is said of what was cut off.
-/

set_option autoImplicit false

namespace HashChain

/-- How an entry is read: the hash it stores, the hash it names as its predecessor's, and the
hash that is computed from it, when it can be computed. -/
structure Reading (E H : Type) where
  stored : E → H
  prev : E → Option H
  digest : E → Option H

variable {E H : Type} (R : Reading E H)

/-- The entries form a chain whose first predecessor is `p`. -/
def Linked : Option H → List E → Prop
  | _, [] => True
  | p, e :: es => R.prev e = p ∧ R.digest e = some (R.stored e) ∧ Linked (some (R.stored e)) es

/-- The hash a chain ends in. -/
def tip : Option H → List E → Option H
  | p, [] => p
  | _, e :: es => tip (some (R.stored e)) es

variable {R}

/-- The tip of two parts is that of the second from the tip of the first. -/
theorem tip_append (p : Option H) (es fs : List E) :
    tip R p (es ++ fs) = tip R (tip R p es) fs := by
  induction es generalizing p with
  | nil => rfl
  | cons e es ih => exact ih (some (R.stored e))

/-- The tip is what the last entry stores. -/
theorem tip_concat (p : Option H) (es : List E) (e : E) :
    tip R p (es ++ [e]) = some (R.stored e) := by
  rw [tip_append]
  rfl

/-- Two parts are linked when each is, and the second goes on from the tip of the first. -/
theorem linked_append {p : Option H} {es fs : List E} :
    Linked R p (es ++ fs) ↔ Linked R p es ∧ Linked R (tip R p es) fs := by
  induction es generalizing p with
  | nil => exact ⟨fun h => ⟨trivial, h⟩, fun h => h.2⟩
  | cons e es ih =>
    simp only [List.cons_append, Linked, tip]
    rw [ih, and_assoc, and_assoc]

/-- A chain grows by an entry that names its tip and stores its own hash. -/
theorem Linked.concat {p : Option H} {es : List E} {e : E} (h : Linked R p es)
    (hprev : R.prev e = tip R p es) (hdigest : R.digest e = some (R.stored e)) :
    Linked R p (es ++ [e]) :=
  linked_append.mpr ⟨h, hprev, hdigest, trivial⟩

/-- **A tip commits to its chain.** Two chains of one length that end in one hash agree entry by
entry, when equal hashes of entries mean the same entry. -/
theorem Linked.commit {Same : E → E → Prop} {p : Option H} :
    ∀ {es fs : List E}, Linked R p es → Linked R p fs → es.length = fs.length →
      tip R p es = tip R p fs →
      (∀ e ∈ es, ∀ f ∈ fs, R.digest e = some (R.stored e) → R.digest f = some (R.stored f) →
        R.stored e = R.stored f → Same e f ∧ R.prev e = R.prev f) →
      List.Forall₂ Same es fs := by
  intro es
  induction es using List.reverseRecOn with
  | nil =>
    intro fs _ _ hlen _ _
    rw [List.length_eq_zero_iff.mp hlen.symm]
    exact .nil
  | append_singleton es e ih =>
    intro fs hes hfs hlen htip hsame
    rcases List.eq_nil_or_concat fs with rfl | ⟨fs, f, rfl⟩
    · simp at hlen
    rw [List.concat_eq_append] at *
    obtain ⟨hes', hprev, hdigest, -⟩ := linked_append.mp hes
    obtain ⟨hfs', hprev', hdigest', -⟩ := linked_append.mp hfs
    rw [tip_concat, tip_concat] at htip
    obtain ⟨hef, hpp⟩ := hsame e (by simp) f (by simp) hdigest hdigest' (Option.some.inj htip)
    have htips : tip R p es = tip R p fs := by rw [← hprev, ← hprev', hpp]
    have hinit : List.Forall₂ Same es fs :=
      ih hes' hfs' (by simpa using hlen) htips fun a ha b hb =>
        hsame a (List.mem_append_left _ ha) b (List.mem_append_left _ hb)
    exact List.rel_append hinit (.cons hef .nil)

/-- An entry of one of two agreeing lists has its counterpart in the other. -/
theorem exists_of_forall₂ {Same : E → E → Prop} {es fs : List E} (h : List.Forall₂ Same es fs)
    {e : E} (he : e ∈ es) : ∃ f ∈ fs, Same e f := by
  induction h with
  | nil => cases he
  | cons hab _ ih =>
    rcases List.mem_cons.mp he with rfl | hmem
    · exact ⟨_, List.mem_cons_self, hab⟩
    · obtain ⟨f, hf, hef⟩ := ih hmem
      exact ⟨f, List.mem_cons_of_mem _ hf, hef⟩

end HashChain
