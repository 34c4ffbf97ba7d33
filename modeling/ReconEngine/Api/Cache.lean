import ReconEngine.Store.Dict
import Mathlib.Algebra.Order.Field.Rat
import Mathlib.Data.List.Infix
import Mathlib.Tactic.NormNum

/-!
# The cache

`MemoryCache` keeps values with a time of expiry and counters with one. A dashboard endpoint looks
its key up, and builds the answer and stores it when there is none; the requests run in threads, so
that the lookups and stores of several of them come in any order, each under the lock.

**The law** (`CachedView.found_iff`): in any order of lookups and stores, a lookup finds the answer of
the latest store of its key, and finds it exactly when that store is not yet as old as it may get.

Clock readings are exact rationals, in seconds.

**What it does not establish.** That an answer is up to date: it is as old as it may get, and what
the tables have become meanwhile it does not show. Several processes have a cache each unless they
share one over the network, which is not modelled.
-/

set_option autoImplicit false

namespace Recon

open Store (Dict)

def maxCounters : Nat := 50000

structure MemoryCache where
  values : Dict String (ℚ × String) := {}
  counters : Dict String (ℚ × Nat) := {}

namespace MemoryCache

variable (cache : MemoryCache)

/-- `get`; an expired value is deleted. -/
def get (key : String) (now : ℚ) : Option String × MemoryCache :=
  match cache.values.get? key with
  | none => (none, cache)
  | some (expires, value) =>
    if expires ≤ now then (none, { cache with values := cache.values.erase key })
    else (some value, cache)

/-- `set`. -/
def set (key value : String) (ttlSeconds : ℚ) (now : ℚ) : MemoryCache :=
  { cache with values := cache.values.put key (now + ttlSeconds, value) }

/-- `incr_window`: the new count, and the cache without expired counters where it has too many. -/
def incrWindow (key : String) (ttlSeconds : ℚ) (now : ℚ) : Nat × MemoryCache :=
  let (expires, count) := (cache.counters.get? key).getD (0, 0)
  let (expires, count) := if expires ≤ now then (now + ttlSeconds, 0) else (expires, count)
  let counters := cache.counters.put key (expires, count + 1)
  let kept :=
    if maxCounters < counters.size then counters.filter fun _ counter => now < counter.1
    else counters
  (count + 1, { cache with counters := kept })

end MemoryCache

/-! ## Lookups and stores in any order -/

/-- The answers of an endpoint: how they are written to the cache and read from it, and how long
they may stay there. -/
structure CachedView (V : Type) where
  dump : V → String
  load : String → Option V
  readsBack : ∀ v, load (dump v) = some v
  ttl : ℚ

/-- What a request does under the lock, with the clock it reads there: it looks its key up, or
stores the answer that it has built. -/
inductive CacheAction (V : Type) where
  | lookup (key : String) (now : ℚ)
  | store (key : String) (answer : V) (now : ℚ)

def CacheAction.now {V : Type} : CacheAction V → ℚ
  | .lookup _ now => now
  | .store _ _ now => now

/-- The latest answer stored at the key, and when it was stored. -/
def latestStore {V : Type} (key : String) (actions : List (CacheAction V)) : Option (V × ℚ) :=
  actions.foldl (fun found a =>
    match a with
    | .lookup _ _ => found
    | .store key' answer now => if key' = key then some (answer, now) else found) none

namespace CachedView

variable {V : Type} (view : CachedView V)

def apply (cache : MemoryCache) : CacheAction V → MemoryCache
  | .lookup key now => (cache.get key now).2
  | .store key answer now => cache.set key (view.dump answer) view.ttl now

/-- The cache after the actions of any number of requests, in the order of the lock. -/
def after (actions : List (CacheAction V)) : MemoryCache := actions.foldl view.apply {}

/-- `_cached`: the answer that a request finds, if it finds one. -/
def found (actions : List (CacheAction V)) (key : String) (now : ℚ) : Option V :=
  ((view.after actions).get key now).1.bind view.load

/-- What the cache holds at a key: nothing where nothing was stored; otherwise the latest answer, or
nothing once a lookup has seen it expired. -/
def Holds (actions : List (CacheAction V)) (key : String) : Prop :=
  match latestStore key actions with
  | none => (view.after actions).values.get? key = none
  | some (answer, stored) =>
    (view.after actions).values.get? key = some (stored + view.ttl, view.dump answer) ∨
      ((view.after actions).values.get? key = none ∧
        ∃ a ∈ actions, stored + view.ttl ≤ a.now)

variable {view}

theorem after_snoc (actions : List (CacheAction V)) (a : CacheAction V) :
    view.after (actions ++ [a]) = view.apply (view.after actions) a := by
  unfold after
  rw [List.foldl_append]
  rfl

/-- The latest store of a key after one more action. -/
theorem latestStore_snoc (key : String) (actions : List (CacheAction V)) (a : CacheAction V) :
    latestStore key (actions ++ [a]) =
      match a with
      | .lookup _ _ => latestStore key actions
      | .store key' answer now =>
        if key' = key then some (answer, now) else latestStore key actions := by
  unfold latestStore
  rw [List.foldl_append]
  rfl

/-- A lookup takes nothing away from a key but an answer that it sees expired. -/
theorem get_values (cache : MemoryCache) (key key' : String) (now : ℚ) :
    (cache.get key' now).2.values.get? key = cache.values.get? key ∨
      (key' = key ∧ (cache.get key' now).2.values.get? key = none ∧
        ∃ expires value, cache.values.get? key = some (expires, value) ∧ expires ≤ now) := by
  unfold MemoryCache.get
  cases hvalue : cache.values.get? key' with
  | none => exact .inl rfl
  | some entry =>
    obtain ⟨expires, value⟩ := entry
    by_cases hexpired : expires ≤ now
    · simp only [if_pos hexpired, Dict.get?_erase]
      by_cases hkey : key = key'
      · subst hkey
        exact .inr ⟨rfl, if_pos rfl, expires, value, hvalue, hexpired⟩
      · exact .inl (if_neg hkey)
    · left
      simp only [if_neg hexpired]

/-- Every action keeps to what the cache holds. -/
theorem holds_snoc {actions : List (CacheAction V)} {key : String} (a : CacheAction V)
    (h : view.Holds actions key) : view.Holds (actions ++ [a]) key := by
  unfold Holds at h ⊢
  rw [latestStore_snoc, after_snoc]
  cases a with
  | lookup key' now =>
    dsimp only [apply]
    cases hlatest : latestStore key actions with
    | none =>
      rw [hlatest] at h
      dsimp only at h ⊢
      rcases get_values (view.after actions) key key' now with hsame | ⟨-, hnone, -⟩
      · rw [hsame, h]
      · exact hnone
    | some latest =>
      obtain ⟨answer, stored⟩ := latest
      rw [hlatest] at h
      dsimp only at h ⊢
      rcases get_values (view.after actions) key key' now with
        hsame | ⟨-, hnone, expires, value, hvalue, hexpired⟩
      · rw [hsame]
        rcases h with h | ⟨h, b, hb, hlate⟩
        · exact .inl h
        · exact .inr ⟨h, b, List.mem_append_left _ hb, hlate⟩
      · refine .inr ⟨hnone, ?_⟩
        rcases h with h | ⟨h, -⟩
        · rw [hvalue] at h
          obtain ⟨rfl, -⟩ := Prod.mk.inj (Option.some.inj h)
          exact ⟨_, List.mem_append_right _ (List.mem_singleton_self _), hexpired⟩
        · rw [hvalue] at h
          cases h
  | store key' answer now =>
    dsimp only [apply, MemoryCache.set]
    rw [Dict.get?_put]
    by_cases hkey : key' = key
    · subst hkey
      simp
    · rw [if_neg hkey, if_neg (Ne.symm hkey)]
      cases hlatest : latestStore key actions with
      | none =>
        rw [hlatest] at h
        exact h
      | some latest =>
        rw [hlatest] at h
        dsimp only at h ⊢
        rcases h with h | ⟨h, b, hb, hlate⟩
        · exact .inl h
        · exact .inr ⟨h, b, List.mem_append_left _ hb, hlate⟩

theorem holds (actions : List (CacheAction V)) (key : String) : view.Holds actions key := by
  induction actions using List.reverseRecOn with
  | nil => rfl
  | append_singleton actions a ih => exact holds_snoc a ih

/-- **The law of the cache.** After any lookups and stores, in any order, a request whose clock is
not behind theirs finds the answer of the latest store of its key as long as that is not as old as
it may get, and nothing otherwise. -/
theorem found_iff (view : CachedView V) {actions : List (CacheAction V)} {key : String} {now : ℚ}
    (hnow : ∀ a ∈ actions, a.now ≤ now) (answer : V) :
    view.found actions key now = some answer ↔
      ∃ stored, latestStore key actions = some (answer, stored) ∧ now < stored + view.ttl := by
  have hholds := view.holds actions key
  have hgone : (view.after actions).values.get? key = none →
      view.found actions key now = none := by
    intro h
    unfold found MemoryCache.get
    rw [h]
    rfl
  unfold Holds at hholds
  cases hlatest : latestStore key actions with
  | none =>
    rw [hlatest] at hholds
    rw [hgone hholds]
    simp
  | some latest =>
    obtain ⟨kept, stored⟩ := latest
    rw [hlatest] at hholds
    have hsame : (∃ stored', some (kept, stored) = some (answer, stored') ∧
        now < stored' + view.ttl) ↔ kept = answer ∧ now < stored + view.ttl := by
      constructor
      · intro h
        obtain ⟨stored', heq, hlt⟩ := h
        obtain ⟨rfl, rfl⟩ := Prod.mk.inj (Option.some.inj heq)
        exact ⟨rfl, hlt⟩
      · intro h
        exact ⟨stored, by rw [h.1], h.2⟩
    rw [hsame]
    rcases hholds with hvalue | ⟨hnone, a, ha, hlate⟩
    · unfold found MemoryCache.get
      rw [hvalue]
      dsimp only
      by_cases hexpired : stored + view.ttl ≤ now
      · simp [hexpired, not_lt.mpr hexpired]
      · simp [hexpired, view.readsBack, not_le.mp hexpired]
    · rw [hgone hnone]
      have hold : ¬ now < stored + view.ttl := not_lt.mpr (hlate.trans (hnow a ha))
      simp [hold]

/-- Two requests of the dashboard's summary that both missed, and a third between them. -/
def summaryView : CachedView String where
  dump := id
  load := some
  readsBack := fun _ => rfl
  ttl := 30

theorem found_iff_summary :
    summaryView.found [.store "dash:summary" "before" 0, .lookup "dash:summary" 10,
      .store "dash:summary" "after" 31] "dash:summary" 40 = some "after" := by
  apply (@found_iff _ summaryView _ "dash:summary" 40 _ "after").mpr
  · exact ⟨31, rfl, by norm_num [summaryView]⟩
  · intro a ha
    simp only [List.mem_cons, List.not_mem_nil, or_false] at ha
    rcases ha with rfl | rfl | rfl <;> norm_num [CacheAction.now]

end CachedView

end Recon
