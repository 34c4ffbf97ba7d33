import ReconEngine.Matching.Exact
import Mathlib.Data.List.Perm.Subperm

/-!
# The choices of the exact stage

What the exact stage decides, apart from what it writes: the externals take their internals in
turn, each out of the index that the ones before have left. An external sees the candidates of its
own key only, so the choices of one key are those of the stage on the rows with that key.

A choice is a pure function of the pools, the rejected pairs and the claims that were there; the law
of this module, that the choices of one key depend on the rows of that key only, is what the
set-based statement is compared with.

**What it does not establish.** What is written for a choice, and in what order: see
`Matching.ExactAgreement`.
-/

set_option autoImplicit false

namespace Recon

/-- An external, the internal it takes, and how many candidates it had. -/
structure ExactChoice where
  internal : NormalisedTransaction
  external : NormalisedTransaction
  candidateCount : Nat
deriving DecidableEq

/-- The row that the choice is written as. -/
def ExactChoice.columns (run : Id) (c : ExactChoice) : MatchColumns :=
  exactColumns run c.internal c.external c.candidateCount

/-- What the externals take in turn. -/
def exactChoices (rejected : List (Id × Id)) :
    ExactIndex → List NormalisedTransaction → List ExactChoice
  | _, [] => []
  | index, external :: externals =>
    match buildKey external with
    | none => exactChoices rejected index externals
    | some key =>
      match disambiguate (index.allowed rejected key external) external with
      | none => exactChoices rejected index externals
      | some internal =>
        ⟨internal, external, (index.bucket key).length⟩ ::
          exactChoices rejected (index.erase (key, internal)) externals

section

variable {rejected rejected' : List (Id × Id)} {key : ExactMatchKey}
  {external internal : NormalisedTransaction}

/-- An external without a key chooses nothing. -/
theorem exactChoices_keyless (hkey : buildKey external = none) (index : ExactIndex)
    (externals : List NormalisedTransaction) :
    exactChoices rejected index (external :: externals) = exactChoices rejected index externals := by
  rw [exactChoices, hkey]

/-- One that finds nothing leaves the index as it was. -/
theorem exactChoices_pass {index : ExactIndex} (hkey : buildKey external = some key)
    (hnone : disambiguate (index.allowed rejected key external) external = none)
    (externals : List NormalisedTransaction) :
    exactChoices rejected index (external :: externals) = exactChoices rejected index externals := by
  rw [exactChoices, hkey]
  dsimp only
  rw [hnone]

/-- One that finds an internal takes it out of the index. -/
theorem exactChoices_take {index : ExactIndex} (hkey : buildKey external = some key)
    (hsome : disambiguate (index.allowed rejected key external) external = some internal)
    (externals : List NormalisedTransaction) :
    exactChoices rejected index (external :: externals) =
      ⟨internal, external, (index.bucket key).length⟩ ::
        exactChoices rejected (index.erase (key, internal)) externals := by
  rw [exactChoices, hkey]
  dsimp only
  rw [hsome]

/-! ## Who is chosen -/

/-- Every external chooses at most once, in its turn. -/
theorem exactChoices_externals (rejected : List (Id × Id)) :
    ∀ (index : ExactIndex) (externals : List NormalisedTransaction),
      ((exactChoices rejected index externals).map (·.external)).Sublist externals := by
  intro index externals
  induction externals generalizing index with
  | nil => exact List.Sublist.refl _
  | cons external externals ih =>
    cases hkey : buildKey external with
    | none =>
      rw [exactChoices_keyless hkey]
      exact (ih index).cons external
    | some key =>
      cases hchoice : disambiguate (index.allowed rejected key external) external with
      | none =>
        rw [exactChoices_pass hkey hchoice]
        exact (ih index).cons external
      | some internal =>
        rw [exactChoices_take hkey hchoice]
        exact (ih _).cons_cons external

/-- No internal is taken more often than it is in the index. -/
theorem exactChoices_internals (rejected : List (Id × Id)) :
    ∀ (index : ExactIndex) (externals : List NormalisedTransaction),
      ((exactChoices rejected index externals).map (·.internal)).Subperm (index.map Prod.snd) := by
  intro index externals
  induction externals generalizing index with
  | nil => exact List.nil_subperm
  | cons external externals ih =>
    cases hkey : buildKey external with
    | none =>
      rw [exactChoices_keyless hkey]
      exact ih index
    | some key =>
      cases hchoice : disambiguate (index.allowed rejected key external) external with
      | none =>
        rw [exactChoices_pass hkey hchoice]
        exact ih index
      | some internal =>
        rw [exactChoices_take hkey hchoice]
        have hperm := (List.perm_cons_erase (mem_of_disambiguate hchoice).1).map Prod.snd
        exact ((List.subperm_cons internal).mpr (ih _)).trans hperm.symm.subperm

/-- The external of a choice has a key. -/
theorem exactChoices_keyed {c : ExactChoice} :
    ∀ {index : ExactIndex} {externals : List NormalisedTransaction},
      c ∈ exactChoices rejected index externals → (buildKey c.external).isSome = true := by
  intro index externals h
  induction externals generalizing index with
  | nil => exact absurd h List.not_mem_nil
  | cons external externals ih =>
    cases hkey : buildKey external with
    | none =>
      rw [exactChoices_keyless hkey] at h
      exact ih h
    | some key =>
      cases hchoice : disambiguate (index.allowed rejected key external) external with
      | none =>
        rw [exactChoices_pass hkey hchoice] at h
        exact ih h
      | some internal =>
        rw [exactChoices_take hkey hchoice] at h
        rcases List.mem_cons.mp h with rfl | h
        · rw [hkey]
          rfl
        · exact ih h

/-! ## What a choice depends on -/

/-- Only the rejections of pairs that could be made matter. -/
theorem exactChoices_congr :
    ∀ {index : ExactIndex} {externals : List NormalisedTransaction},
      (∀ p ∈ index, ∀ e ∈ externals, ((p.2.id, e.id) ∈ rejected ↔ (p.2.id, e.id) ∈ rejected')) →
      exactChoices rejected index externals = exactChoices rejected' index externals := by
  intro index externals h
  induction externals generalizing index with
  | nil => rfl
  | cons external externals ih =>
    have hrest : ∀ p ∈ index, ∀ e ∈ externals,
        ((p.2.id, e.id) ∈ rejected ↔ (p.2.id, e.id) ∈ rejected') :=
      fun p hp e he => h p hp e (List.mem_cons_of_mem external he)
    cases hkey : buildKey external with
    | none =>
      rw [exactChoices_keyless hkey, exactChoices_keyless hkey]
      exact ih hrest
    | some key =>
      have hallowed : index.allowed rejected key external = index.allowed rejected' key external := by
        unfold ExactIndex.allowed
        refine List.filter_congr fun c hc => ?_
        obtain ⟨p, hp, rfl⟩ := List.mem_map.mp hc
        have hiff := h p (List.mem_filter.mp hp).1 external List.mem_cons_self
        rw [List.contains_eq_mem, List.contains_eq_mem, decide_eq_decide.mpr hiff]
      cases hchoice : disambiguate (index.allowed rejected key external) external with
      | none =>
        rw [exactChoices_pass hkey hchoice, exactChoices_pass hkey (hallowed ▸ hchoice)]
        exact ih hrest
      | some internal =>
        rw [exactChoices_take hkey hchoice, exactChoices_take hkey (hallowed ▸ hchoice)]
        exact congrArg _ (ih fun p hp => hrest p (List.mem_of_mem_erase hp))

/-- The entries of the index with a key. -/
def ExactIndex.under (index : ExactIndex) (key : ExactMatchKey) : ExactIndex :=
  index.filter (·.1 = key)

/-- The bucket of a key is that of the rows with the key. -/
theorem bucket_under (index : ExactIndex) (key : ExactMatchKey) :
    (index.under key).bucket key = index.bucket key := by
  simp [ExactIndex.under, ExactIndex.bucket]

theorem allowed_under (index : ExactIndex) (key : ExactMatchKey) :
    (index.under key).allowed rejected key external = index.allowed rejected key external := by
  unfold ExactIndex.allowed
  rw [bucket_under]

/-- Taking a row out and looking at one key go in either order. -/
theorem under_erase (index : ExactIndex) (key : ExactMatchKey)
    (p : ExactMatchKey × NormalisedTransaction) :
    ExactIndex.under (index.erase p) key = (index.under key).erase p :=
  List.erase_filter.symm

/-- **The keys are apart.** The choices of one key are made on its entries and by its externals. -/
theorem exactChoices_under (key : ExactMatchKey) :
    ∀ (index : ExactIndex) (externals : List NormalisedTransaction),
      (exactChoices rejected index externals).filter (fun c => buildKey c.external = some key) =
        exactChoices rejected (index.under key) (externals.filter fun e => buildKey e = some key) := by
  intro index externals
  induction externals generalizing index with
  | nil => rfl
  | cons external externals ih =>
    cases hkey : buildKey external with
    | none =>
      rw [exactChoices_keyless hkey, List.filter_cons_of_neg (by simp [hkey])]
      exact ih index
    | some own =>
      by_cases hown : own = key
      · subst hown
        rw [List.filter_cons_of_pos (p := fun e => decide (buildKey e = some own)) (by simp [hkey])]
        cases hchoice : disambiguate (index.allowed rejected own external) external with
        | none =>
          rw [exactChoices_pass hkey hchoice,
            exactChoices_pass hkey (allowed_under index own ▸ hchoice)]
          exact ih index
        | some internal =>
          rw [exactChoices_take hkey hchoice,
            exactChoices_take hkey (allowed_under index own ▸ hchoice), bucket_under,
            List.filter_cons_of_pos (by simp [hkey]), ih, under_erase]
      · have hout : ¬ decide (buildKey external = some key) = true := by simp [hkey, hown]
        rw [List.filter_cons_of_neg (p := fun e => decide (buildKey e = some key)) hout]
        cases hchoice : disambiguate (index.allowed rejected own external) external with
        | none =>
          rw [exactChoices_pass hkey hchoice]
          exact ih index
        | some internal =>
          -- The entry that is taken is of another key.
          have hentry : (own, internal) ∉ index.under key := fun hin =>
            hown (of_decide_eq_true (List.mem_filter.mp hin).2)
          rw [exactChoices_take hkey hchoice, List.filter_cons_of_neg (by simpa using hout), ih,
            under_erase, List.erase_of_not_mem hentry]

/-- The index of the rows with a key is the part of the index under it. -/
theorem buildIndex_under (internals : List NormalisedTransaction) (key : ExactMatchKey) :
    ExactIndex.under (buildIndex internals).1 key =
      (buildIndex (internals.filter fun t => buildKey t = some key)).1 := by
  unfold ExactIndex.under buildIndex
  induction internals with
  | nil => rfl
  | cons t internals ih =>
    dsimp only at ih ⊢
    cases hkey : buildKey t with
    | none => simpa [hkey] using ih
    | some own =>
      by_cases hown : own = key
      · simpa [hkey, hown] using ih
      · simpa [hkey, hown] using ih

/-- One internal and one external of a key, not rejected, are a pair out of one candidate. -/
theorem exactChoices_single (hin : buildKey internal = some key) (hex : buildKey external = some key)
    (hno : (internal.id, external.id) ∉ rejected) :
    exactChoices rejected (buildIndex [internal]).1 [external] = [⟨internal, external, 1⟩] := by
  have hindex : (buildIndex [internal]).1 = [(key, internal)] := by
    simp [buildIndex, hin]
  have hallowed : ExactIndex.allowed [(key, internal)] rejected key external = [internal] := by
    simp [ExactIndex.allowed, ExactIndex.bucket, hno]
  rw [hindex, exactChoices_take hex (by rw [hallowed]; rfl)]
  simp [exactChoices, ExactIndex.bucket]

end

end Recon
