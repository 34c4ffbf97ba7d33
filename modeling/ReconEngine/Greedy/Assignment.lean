import Mathlib.Data.List.Basic
import Mathlib.Data.List.Nodup
import Mathlib.Data.List.Perm.Subperm

/-!
# Greedy assignment

Requests come one after another, and each takes the nearest item of a pool that fits it and that no
earlier request took; of equally near items it takes the one that the pool puts first. A request
may also be turned away although an item fits it. `Assignment` is the relation between the requests
so far, the pairs they made and the requests that were turned away.

What follows holds for any notion of fitting, distance and precedence: the pairs are injective on
both sides, every pair is nearest at its turn, nothing that fits is left on both sides
(`left_over`: but for those who were turned away), and of items (or requests) that are alike the
first is the first to be paired.

**What it does not establish.** The relation does not say why a request is turned away; a model that
turns requests away has to say so itself. Nor is the assignment the largest one, or the one with the
least distance in sum: a greedy choice is nearest at its own turn only.
-/

set_option autoImplicit false

namespace Greedy

variable {α β : Type}

/-- What decides a request: which items fit it, how far they are, and which item comes first. -/
structure Terms (α β : Type) where
  fits : α → β → Prop
  distance : α → β → Nat
  precedes : α → α → Prop

/-- `a` is the best item for `b` among those that satisfy `free`. -/
structure Terms.Best (t : Terms α β) (free : α → Prop) (a : α) (b : β) : Prop where
  available : free a
  fits : t.fits a b
  nearest : ∀ a', free a' → t.fits a' b → t.distance a b ≤ t.distance a' b
  first : ∀ a', free a' → t.fits a' b → t.distance a' b = t.distance a b → a' = a ∨ t.precedes a a'

/-- The items of the pool that no pair has taken. -/
def Left (pool : List α) (pairs : List (α × β)) (a : α) : Prop :=
  a ∈ pool ∧ a ∉ pairs.map Prod.fst

/-- The requests so far, the pairs they made, and the requests that were turned away. -/
inductive Assignment (t : Terms α β) (pool : List α) : List β → List (α × β) → List β → Prop
  | start : Assignment t pool [] [] []
  | take {bs : List β} {pairs : List (α × β)} {turned : List β} {a : α} {b : β} :
      Assignment t pool bs pairs turned → t.Best (Left pool pairs) a b →
        Assignment t pool (bs ++ [b]) (pairs ++ [(a, b)]) turned
  | pass {bs : List β} {pairs : List (α × β)} {turned : List β} {b : β} :
      Assignment t pool bs pairs turned → (∀ a, Left pool pairs a → ¬ t.fits a b) →
        Assignment t pool (bs ++ [b]) pairs turned
  | turnAway {bs : List β} {pairs : List (α × β)} {turned : List β} {b : β} :
      Assignment t pool bs pairs turned →
        Assignment t pool (bs ++ [b]) pairs (turned ++ [b])

namespace Assignment

variable {t : Terms α β} {pool : List α} {bs : List β} {pairs : List (α × β)} {turned : List β}

theorem Left.mono {more : List (α × β)} {a : α} (h : Left pool (pairs ++ more) a) :
    Left pool pairs a :=
  ⟨h.1, fun hin => h.2 (by rw [List.map_append]; exact List.mem_append_left _ hin)⟩

/-- The pairs name requests, in their order. -/
theorem requests (h : Assignment t pool bs pairs turned) : (pairs.map Prod.snd).Sublist bs := by
  induction h with
  | start => exact List.Sublist.refl _
  | take _ _ ih =>
    rw [List.map_append]
    exact ih.append (List.Sublist.refl _)
  | pass _ _ ih => exact ih.trans (List.sublist_append_left _ _)
  | turnAway _ ih => exact ih.trans (List.sublist_append_left _ _)

/-- No item is taken twice. -/
theorem items_nodup (h : Assignment t pool bs pairs turned) : (pairs.map Prod.fst).Nodup := by
  induction h with
  | start => exact List.nodup_nil
  | take _ hbest ih =>
    rw [List.map_append]
    apply List.nodup_append.mpr
    refine ⟨ih, List.nodup_singleton _, ?_⟩
    intro x hx y hy hxy
    rw [hxy, List.mem_singleton.mp hy] at hx
    exact hbest.available.2 hx
  | pass _ _ ih => exact ih
  | turnAway _ ih => exact ih

/-- Every pair was the best for its request when its turn came. -/
theorem best (h : Assignment t pool bs pairs turned) :
    ∀ before p after, pairs = before ++ p :: after → t.Best (Left pool before) p.1 p.2 := by
  induction h with
  | start =>
    intro before p after heq
    simp at heq
  | @take _ earlier _ a b _ hbest ih =>
    intro before p after heq
    rcases List.eq_nil_or_concat after with rfl | ⟨rest, last, rfl⟩
    · obtain ⟨hbefore, hp⟩ := List.append_inj' heq rfl
      rw [← hbefore, ← List.singleton_inj.mp hp]
      exact hbest
    · have hsplit : earlier ++ [(a, b)] = (before ++ p :: rest) ++ [last] := by
        simpa using heq
      exact ih before p rest (List.append_inj' hsplit rfl).1
  | pass _ _ ih => exact ih
  | turnAway _ ih => exact ih

/-- Every pair is of an item of the pool and fits. -/
theorem fits (h : Assignment t pool bs pairs turned) {p : α × β} (hp : p ∈ pairs) :
    p.1 ∈ pool ∧ t.fits p.1 p.2 := by
  obtain ⟨before, after, heq⟩ := List.append_of_mem hp
  have hbest := h.best before p after heq
  exact ⟨hbest.available.1, hbest.fits⟩

/-- Those who were turned away are requests, in their order. -/
theorem turned_requests (h : Assignment t pool bs pairs turned) : turned.Sublist bs := by
  induction h with
  | start => exact List.Sublist.refl _
  | take _ _ ih => exact ih.trans (List.sublist_append_left _ _)
  | pass _ _ ih => exact ih.trans (List.sublist_append_left _ _)
  | turnAway _ ih => exact ih.append (List.Sublist.refl _)

/-- An item and a request that are both left over do not fit, unless the request was turned away. -/
theorem left_over (h : Assignment t pool bs pairs turned) :
    ∀ a, Left pool pairs a → ∀ b ∈ bs, b ∉ pairs.map Prod.snd → b ∉ turned → ¬ t.fits a b := by
  induction h with
  | start => exact fun _ _ b hb => absurd hb List.not_mem_nil
  | take _ _ ih =>
    intro a ha b hb hout hturned
    rw [List.map_append, List.mem_append, not_or] at hout
    rcases List.mem_append.mp hb with hb | hb
    · exact ih a (Left.mono ha) b hb hout.1 hturned
    · exact absurd hb hout.2
  | pass _ hnobody ih =>
    intro a ha b hb hout hturned
    rcases List.mem_append.mp hb with hb | hb
    · exact ih a ha b hb hout hturned
    · rw [List.mem_singleton.mp hb]
      exact hnobody a ha
  | turnAway _ ih =>
    intro a ha b hb hout hturned
    rw [List.mem_append, not_or] at hturned
    rcases List.mem_append.mp hb with hb | hb
    · exact ih a ha b hb hout hturned.1
    · exact absurd hb hturned.2

/-- When nobody was turned away, an item and a request that are both left over do not fit. -/
theorem maximal (h : Assignment t pool bs pairs turned) (hnone : turned = [])
    (a : α) (ha : Left pool pairs a) (b : β) (hb : b ∈ bs) (hout : b ∉ pairs.map Prod.snd) :
    ¬ t.fits a b :=
  h.left_over a ha b hb hout (by simp [hnone])

/-- Of two items that are alike, the one that comes first is paired whenever the other is. -/
theorem first_item (h : Assignment t pool bs pairs turned) {a a' : α} (ha : a ∈ pool)
    (hfits : ∀ b, t.fits a' b → t.fits a b) (hdistance : ∀ b, t.distance a b = t.distance a' b)
    (hfirst : ¬ t.precedes a' a) (hpaired : a' ∈ pairs.map Prod.fst) : a ∈ pairs.map Prod.fst := by
  obtain ⟨p, hp, rfl⟩ := List.mem_map.mp hpaired
  obtain ⟨before, after, heq⟩ := List.append_of_mem hp
  have hbest := h.best before p after heq
  by_contra hout
  have hleft : Left pool before a := by
    refine ⟨ha, fun hin => hout ?_⟩
    rw [heq, List.map_append]
    exact List.mem_append_left _ hin
  rcases hbest.first a hleft (hfits _ hbest.fits) (hdistance _) with rfl | hprecedes
  · exact hout (List.mem_map_of_mem hp)
  · exact hfirst hprecedes

/-- Of two requests that are alike, the first is paired whenever the later one is and nobody was
turned away. -/
theorem first_request (h : Assignment t pool bs pairs turned) (hnone : turned = [])
    {b b' : β} (hfits : ∀ a, t.fits a b' → t.fits a b) :
    ∀ earlier later, bs = earlier ++ later → b ∈ earlier → b' ∉ earlier →
      b' ∈ pairs.map Prod.snd → b ∈ pairs.map Prod.snd := by
  induction h with
  | start => exact fun _ _ _ _ _ hpaired => by simp at hpaired
  | @take bs pairs turned a c hbs hbest ih =>
    intro earlier later heq hb hb' hpaired
    rw [List.map_append, List.mem_append] at hpaired ⊢
    rcases hpaired with hpaired | hpaired
    · left
      rcases List.eq_nil_or_concat later with rfl | ⟨rest, last, rfl⟩
      · -- The later request is among the earlier ones only as the last, which it is not.
        exact absurd (by
          rw [List.append_nil] at heq
          rw [← heq]
          exact List.mem_append_left _ (hbs.requests.subset hpaired)) hb'
      · have hsplit : bs ++ [c] = (earlier ++ rest) ++ [last] := by simpa using heq
        exact ih hnone earlier rest (List.append_inj' hsplit rfl).1 hb hb' hpaired
    · -- The later request is served now, so its item was there at the turn of the first.
      have hc : b' = c := by simpa using hpaired
      subst hc
      left
      by_contra hout
      rcases List.eq_nil_or_concat later with rfl | ⟨rest, last, rfl⟩
      · rw [List.append_nil] at heq
        exact hb' (heq ▸ List.mem_append_right _ (List.mem_singleton_self _))
      · have hsplit : bs ++ [b'] = (earlier ++ rest) ++ [last] := by simpa using heq
        have hmem : b ∈ bs := by
          rw [(List.append_inj' hsplit rfl).1]
          exact List.mem_append_left _ hb
        exact hbs.maximal hnone a hbest.available b hmem hout (hfits a hbest.fits)
  | @pass bs pairs turned c hbs hnobody ih =>
    intro earlier later heq hb hb' hpaired
    rcases List.eq_nil_or_concat later with rfl | ⟨rest, last, rfl⟩
    · exact absurd (by
        rw [List.append_nil] at heq
        rw [← heq]
        exact List.mem_append_left _ (hbs.requests.subset hpaired)) hb'
    · have hsplit : bs ++ [c] = (earlier ++ rest) ++ [last] := by simpa using heq
      exact ih hnone earlier rest (List.append_inj' hsplit rfl).1 hb hb' hpaired
  | turnAway _ _ => simp at hnone

/-- Items and requests that fit each other, the requests nothing else: where there are no more items
than requests, every item is paired. -/
theorem items_paired (h : Assignment t pool bs pairs turned) (hnone : turned = [])
    {items : List α} {requests : List β} (hnodup : requests.Nodup)
    (hpool : ∀ a ∈ items, a ∈ pool) (hbs : ∀ b ∈ requests, b ∈ bs)
    (hfits : ∀ a ∈ items, ∀ b ∈ requests, t.fits a b)
    (honly : ∀ b ∈ requests, ∀ a ∈ pool, t.fits a b → a ∈ items)
    (hle : items.length ≤ requests.length) : ∀ a ∈ items, a ∈ pairs.map Prod.fst := by
  classical
  intro a ha
  by_contra hout
  -- With one item left over every request is paired, and with another item.
  have hserved : requests ⊆ (pairs.filter fun p => p.2 ∈ requests).map Prod.snd := by
    intro b hb
    have hpaired : b ∈ pairs.map Prod.snd := by
      by_contra hno
      exact h.maximal hnone a ⟨hpool a ha, hout⟩ b (hbs b hb) hno (hfits a ha b hb)
    obtain ⟨p, hp, rfl⟩ := List.mem_map.mp hpaired
    exact List.mem_map_of_mem (List.mem_filter.mpr ⟨hp, decide_eq_true hb⟩)
  have hothers : (pairs.filter fun p => p.2 ∈ requests).map Prod.fst ⊆ items.erase a := by
    intro x hx
    obtain ⟨p, hp, rfl⟩ := List.mem_map.mp hx
    obtain ⟨hmem, hreq⟩ := List.mem_filter.mp hp
    obtain ⟨hin, hpair⟩ := h.fits hmem
    refine (List.mem_erase_of_ne fun heq => hout ?_).mpr
      (honly p.2 (of_decide_eq_true hreq) p.1 hin hpair)
    rw [← heq]
    exact List.mem_map_of_mem hmem
  have hitems : ((pairs.filter fun p => p.2 ∈ requests).map Prod.fst).Nodup :=
    h.items_nodup.sublist (List.filter_sublist.map _)
  have hmany := (List.subperm_of_subset hnodup hserved).length_le
  have hfew := (List.subperm_of_subset hitems hothers).length_le
  have hpos := List.length_pos_of_mem ha
  rw [List.length_map] at hmany hfew
  rw [List.length_erase_of_mem ha] at hfew
  omega

/-- The same for the requests, where there are no more of them than items. -/
theorem requests_paired (h : Assignment t pool bs pairs turned) (hnone : turned = [])
    (hdistinct : bs.Nodup) {items : List α} {requests : List β} (hnodup : items.Nodup)
    (hpool : ∀ a ∈ items, a ∈ pool) (hbs : ∀ b ∈ requests, b ∈ bs)
    (hfits : ∀ a ∈ items, ∀ b ∈ requests, t.fits a b)
    (honly : ∀ a ∈ items, ∀ b ∈ bs, t.fits a b → b ∈ requests)
    (hle : requests.length ≤ items.length) : ∀ b ∈ requests, b ∈ pairs.map Prod.snd := by
  classical
  intro b hb
  by_contra hout
  have htaken : items ⊆ (pairs.filter fun p => p.1 ∈ items).map Prod.fst := by
    intro a ha
    have hpaired : a ∈ pairs.map Prod.fst := by
      by_contra hno
      exact h.maximal hnone a ⟨hpool a ha, hno⟩ b (hbs b hb) hout (hfits a ha b hb)
    obtain ⟨p, hp, rfl⟩ := List.mem_map.mp hpaired
    exact List.mem_map_of_mem (List.mem_filter.mpr ⟨hp, decide_eq_true ha⟩)
  have hothers : (pairs.filter fun p => p.1 ∈ items).map Prod.snd ⊆ requests.erase b := by
    intro x hx
    obtain ⟨p, hp, rfl⟩ := List.mem_map.mp hx
    obtain ⟨hmem, hitem⟩ := List.mem_filter.mp hp
    obtain ⟨-, hpair⟩ := h.fits hmem
    have hin : p.2 ∈ bs := h.requests.subset (List.mem_map_of_mem hmem)
    refine (List.mem_erase_of_ne fun heq => hout ?_).mpr
      (honly p.1 (of_decide_eq_true hitem) p.2 hin hpair)
    rw [← heq]
    exact List.mem_map_of_mem hmem
  have hrequests : ((pairs.filter fun p => p.1 ∈ items).map Prod.snd).Nodup :=
    (hdistinct.sublist h.requests).sublist (List.filter_sublist.map _)
  have hmany := (List.subperm_of_subset hnodup htaken).length_le
  have hfew := (List.subperm_of_subset hrequests hothers).length_le
  have hpos := List.length_pos_of_mem hb
  rw [List.length_map] at hmany hfew
  rw [List.length_erase_of_mem hb] at hfew
  omega

end Assignment

end Greedy
