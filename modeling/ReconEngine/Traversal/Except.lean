import Mathlib.Data.List.Forall2
import Mathlib.Data.List.Perm.Basic

/-!
# Traversals that may fail

A traversal of a list by a function that may fail succeeds with some results exactly when the
function succeeds with each of them (`mapM_eq_ok_iff`). What is known of the elements one by one is
carried over by that, and so first come the laws of lists whose elements are related one by one.

**What it does not establish.** Which error a failing traversal ends with: the results that need one
look at the list element by element.
-/

set_option autoImplicit false

namespace Traversal

/-! ## Lists related one by one -/

section

variable {α β γ : Type} {R S : α → β → Prop} {l : List α} {u : List β}

theorem forall₂_and (hR : List.Forall₂ R l u) (hS : List.Forall₂ S l u) :
    List.Forall₂ (fun a b => R a b ∧ S a b) l u := by
  induction hR with
  | nil => exact List.Forall₂.nil
  | cons h _ ih =>
    obtain ⟨hhead, htail⟩ := List.forall₂_cons.mp hS
    exact List.Forall₂.cons ⟨h, hhead⟩ (ih htail)

/-- Another relation of the same lists, when their elements are in it. -/
theorem forall₂_of_mem (hR : List.Forall₂ R l u) (h : ∀ a ∈ l, ∀ b, R a b → S a b) :
    List.Forall₂ S l u := by
  have hmem := (List.forall₂_and_left l u).mpr ⟨fun a ha => ha, hR⟩
  exact hmem.imp fun a b hab => h a hab.1 b hab.2

theorem forall_mem_of_forall₂ {p : α → Prop} (hR : List.Forall₂ R l u)
    (h : ∀ a ∈ l, ∀ b, R a b → p a) : ∀ a ∈ l, p a :=
  ((List.forall₂_and_left l u).mp (forall₂_of_mem hR fun a ha b hab => ⟨h a ha b hab, hab⟩)).1

/-- Two lists that are related to one list are related through it. -/
theorem forall₂_through {T : γ → β → Prop} {m : List γ} (hR : List.Forall₂ R l u)
    (hT : List.Forall₂ T m u) : List.Forall₂ (fun a c => ∃ b, R a b ∧ T c b) l m := by
  induction hR generalizing m with
  | nil =>
    cases hT
    exact List.Forall₂.nil
  | cons hab _ ih =>
    cases hT with
    | cons hcb hrest => exact List.Forall₂.cons ⟨_, hab, hcb⟩ (ih hrest)

/-- A list is put in the order of the list that it is related to. -/
theorem forall₂_reorder {v : List β} (hR : List.Forall₂ R l u) (hperm : u.Perm v) :
    ∃ m, l.Perm m ∧ List.Forall₂ R m v := by
  obtain ⟨m, hflip, hm⟩ := List.perm_comp_forall₂ hperm.symm hR.flip
  exact ⟨m, hm.symm, hflip.flip⟩

end

/-! ## Traversals -/

variable {α β ε : Type} {f : α → Except ε β}

theorem mapM_eq_ok_iff {xs : List α} {ys : List β} :
    xs.mapM f = .ok ys ↔ List.Forall₂ (fun x y => f x = .ok y) xs ys := by
  induction xs generalizing ys with
  | nil =>
    rw [List.forall₂_nil_left_iff]
    exact ⟨fun h => by cases h; rfl, fun h => by rw [h]; rfl⟩
  | cons x xs ih =>
    rw [List.mapM_cons, List.forall₂_cons_left_iff]
    cases hx : f x with
    | error e => simp [bind, Except.bind]
    | ok y =>
      cases hxs : xs.mapM f with
      | error e =>
        simp only [bind, Except.bind, reduceCtorEq, false_iff, not_exists, not_and]
        intro z zs _ hzs
        rw [← ih, hxs] at hzs
        cases hzs
      | ok zs =>
        have hrest : ∀ ws, List.Forall₂ (fun x y => f x = .ok y) xs ws ↔ zs = ws := by
          intro ws
          rw [← ih, hxs, Except.ok.injEq]
        simp [bind, Except.bind, pure, Except.pure, hrest, eq_comm]

theorem length_of_mapM {xs : List α} {ys : List β} (h : xs.mapM f = .ok ys) :
    ys.length = xs.length :=
  (mapM_eq_ok_iff.mp h).length_eq.symm

/-- A traversal succeeds when the function succeeds everywhere. -/
theorem exists_mapM_ok {xs : List α} (h : ∀ x ∈ xs, ∃ y, f x = .ok y) :
    ∃ ys, xs.mapM f = .ok ys := by
  induction xs with
  | nil => exact ⟨[], rfl⟩
  | cons x xs ih =>
    obtain ⟨y, hy⟩ := h x List.mem_cons_self
    obtain ⟨ys, hys⟩ := ih fun x' hx' => h x' (List.mem_cons_of_mem _ hx')
    exact ⟨y :: ys, mapM_eq_ok_iff.mpr (List.Forall₂.cons hy (mapM_eq_ok_iff.mp hys))⟩

/-- A traversal that succeeds has succeeded everywhere. -/
theorem exists_ok_of_mapM {xs : List α} {ys : List β} (h : xs.mapM f = .ok ys) :
    ∀ x ∈ xs, ∃ y, f x = .ok y := by
  rw [mapM_eq_ok_iff] at h
  induction h with
  | nil => simp
  | cons hy _ ih =>
    intro x hx
    obtain rfl | hx := List.mem_cons.mp hx
    · exact ⟨_, hy⟩
    · exact ih x hx

/-- What holds of every result that the function can give holds of the results of a traversal. -/
theorem forall_of_mapM {p : β → Prop} {xs : List α} {ys : List β} (hm : xs.mapM f = .ok ys)
    (h : ∀ x ∈ xs, ∀ y, f x = .ok y → p y) : ∀ y ∈ ys, p y := by
  rw [mapM_eq_ok_iff] at hm
  induction hm with
  | nil => exact fun _ hy => absurd hy List.not_mem_nil
  | cons hy _ ih =>
    exact List.forall_mem_cons.mpr ⟨h _ List.mem_cons_self _ hy,
      ih fun x hx => h x (List.mem_cons_of_mem _ hx)⟩

/-- What is read off the results one by one is read off the elements. -/
theorem flatMap_of_mapM {γ : Type} {g : β → List γ} {h : α → List γ} {xs : List α} {ys : List β}
    (hm : xs.mapM f = .ok ys) (hread : ∀ x ∈ xs, ∀ y, f x = .ok y → g y = h x) :
    ys.flatMap g = xs.flatMap h := by
  rw [mapM_eq_ok_iff] at hm
  induction hm with
  | nil => rfl
  | cons hy _ ih =>
    rw [List.flatMap_cons, List.flatMap_cons, hread _ List.mem_cons_self _ hy,
      ih fun x hx => hread x (List.mem_cons_of_mem _ hx)]

/-- Parts that are traversed one after the other. -/
theorem mapM_append_ok {xs xs' : List α} {ys ys' : List β} (h : xs.mapM f = .ok ys)
    (h' : xs'.mapM f = .ok ys') : (xs ++ xs').mapM f = .ok (ys ++ ys') :=
  mapM_eq_ok_iff.mpr (List.rel_append (mapM_eq_ok_iff.mp h) (mapM_eq_ok_iff.mp h'))

/-- Elements that give an empty list may be left out of a traversal whose results are joined. -/
theorem flatten_mapM_filter (f : α → Except ε (List β)) (p : α → Bool)
    (l : List α) (h : ∀ a ∈ l, p a = false → f a = .ok []) :
    ((l.filter p).mapM f).map List.flatten = (l.mapM f).map List.flatten := by
  induction l with
  | nil => rfl
  | cons a l ih =>
    have ih := ih fun b hb => h b (List.mem_cons_of_mem _ hb)
    by_cases hp : p a = true
    · rw [List.filter_cons_of_pos hp, List.mapM_cons, List.mapM_cons]
      cases hfa : f a with
      | error e => rfl
      | ok bs =>
        cases hleft : (l.filter p).mapM f <;> cases hright : l.mapM f <;>
          simp only [hleft, hright, Except.map, Except.ok.injEq, Except.error.injEq,
            reduceCtorEq] at ih
        · simp [ih, Except.map, bind, Except.bind]
        · simp [ih, Except.map, bind, Except.bind, pure, Except.pure]
    · have hnone : f a = .ok [] := h a List.mem_cons_self (by simpa using hp)
      rw [List.filter_cons_of_neg hp, List.mapM_cons, hnone, ih]
      cases l.mapM f <;> rfl

end Traversal
