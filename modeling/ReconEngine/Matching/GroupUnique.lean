import ReconEngine.Matching.GroupFit
import Mathlib.Algebra.BigOperators.Group.Finset.Basic
import Mathlib.Algebra.Order.BigOperators.Group.Finset
import Mathlib.Data.Finset.Sort
import Mathlib.Data.List.GetD
import Mathlib.Tactic.Linarith

/-!
# When a claimed group is the only one

`_fit` claims a group by one of two routes. The subset search counts the groups of positive amounts;
the shortcut for the whole linked set does not look for others. The condition under which no other
group of the candidates fits is stated in the amounts alone: for the shortcut, that no amount is
within the slack the range leaves; for the search, that amounts of zero, which it skips, cannot be
put into a group or make one.

**The law** (`groupFit_onlyGroup_iff`): a claimed group is the only one among the candidates if and
only if that condition holds, in both routes and for every amount and range.

**What it does not establish.** That the only group is the right one. A candidate that was not
linked is no candidate, however well it would fit.
-/

set_option autoImplicit false

namespace Recon

open Store.Prog hiding pure bind

/-! ## Sets of candidates -/

/-- A set of candidates of an allowed size whose sum is in the accepted range. -/
structure AllowedSet (legs : GroupLegs) (maxMembers : Nat) (s : Finset Nat) : Prop where
  below : s ⊆ Finset.range legs.amounts.length
  atLeast : 2 ≤ s.card
  atMost : s.card ≤ maxMembers
  low : legs.low ≤ sumAt legs.amounts s
  high : sumAt legs.amounts s ≤ legs.high

/-- The candidates at some indices, in order. -/
def membersAt (candidates : List NormalisedTransaction) (s : Finset Nat) :
    List NormalisedTransaction :=
  s.sort.filterMap (candidates[·]?)

/-- The group is an allowed set of the candidates, and there is no other. -/
def OnlyGroup (legs : GroupLegs) (maxMembers : Nat) (candidates : List NormalisedTransaction)
    (solution : GroupSolution) : Prop :=
  ∃ s, solution.members = membersAt candidates s ∧ AllowedSet legs maxMembers s ∧
    ∀ t, AllowedSet legs maxMembers t → t = s

/-- The whole linked set settles in full. -/
def WholeFits (legs : GroupLegs) (maxMembers : Nat) : Prop :=
  2 ≤ legs.amounts.length ∧ legs.amounts.length ≤ maxMembers ∧ legs.low ≤ legs.amounts.sum ∧
    legs.amounts.sum ≤ legs.high

def zeroIndices (amounts : List Int) : Finset Nat :=
  (Finset.range amounts.length).filter fun i => amounts.getD i 0 = 0

/-- No second set can be allowed beside the one that a route finds. -/
structure SetApart (legs : GroupLegs) (maxMembers : Nat) : Prop where
  whole : WholeFits legs maxMembers → legs.amounts.length = 2 ∨
    ∀ i < legs.amounts.length, legs.amounts.sum - legs.low < legs.amounts.getD i 0
  searched : ¬ WholeFits legs maxMembers → zeroIndices legs.amounts = ∅ ∨
    (∀ s, FittingSet legs.amounts legs.low legs.high 2 maxMembers s → s.card = maxMembers) ∧
    (∀ i < legs.amounts.length, 0 < legs.amounts.getD i 0 →
      ¬ (legs.low ≤ legs.amounts.getD i 0 ∧ legs.amounts.getD i 0 ≤ legs.high)) ∧
    (0 < legs.low ∨ (zeroIndices legs.amounts).card ≤ 1)

theorem sumAt_range : ∀ amounts : List Int,
    sumAt amounts (Finset.range amounts.length) = amounts.sum
  | [] => rfl
  | a :: amounts => by
    rw [sumAt, List.length_cons, Finset.sum_range_succ', List.sum_cons, ← sumAt_range amounts,
      add_comm]
    rfl

section

variable {legs : GroupLegs} {maxMembers : Nat} {s : Finset Nat}

theorem mem_zeroIndices {amounts : List Int} {i : Nat} :
    i ∈ zeroIndices amounts ↔ i < amounts.length ∧ amounts.getD i 0 = 0 := by
  rw [zeroIndices, Finset.mem_filter, Finset.mem_range]

theorem getD_nonneg {amounts : List Int} (h : ∀ a ∈ amounts, 0 ≤ a) (i : Nat) :
    0 ≤ amounts.getD i 0 := by
  rcases Nat.lt_or_ge i amounts.length with hi | hi
  · rw [List.getD_eq_getElem _ _ hi]
    exact h _ (List.getElem_mem hi)
  · rw [List.getD_eq_default _ _ hi]

/-- A larger set has the larger sum, as no amount is negative. -/
theorem sumAt_mono {amounts : List Int} (h : ∀ a ∈ amounts, 0 ≤ a) {s t : Finset Nat} (hst : s ⊆ t) :
    sumAt amounts s ≤ sumAt amounts t :=
  Finset.sum_le_sum_of_subset_of_nonneg hst fun i _ _ => getD_nonneg h i

theorem sumAt_insert {amounts : List Int} {i : Nat} (hi : i ∉ s) :
    sumAt amounts (insert i s) = amounts.getD i 0 + sumAt amounts s :=
  Finset.sum_insert hi

/-- What the search counts are the allowed sets of positive amounts. -/
theorem AllowedSet.of_fitting
    (h : FittingSet legs.amounts legs.low legs.high 2 maxMembers s) : AllowedSet legs maxMembers s where
  below i hi := Finset.mem_range.mpr (h.eligible i hi).1
  atLeast := h.minSize
  atMost := h.maxSize
  low := h.low
  high := h.high

/-- A set without zeros that may be a group is one that the search sees. -/
theorem AllowedSet.fitting (h : AllowedSet legs maxMembers s)
    (hnonneg : ∀ a ∈ legs.amounts, 0 ≤ a) (hpos : ∀ i ∈ s, 0 < legs.amounts.getD i 0) :
    FittingSet legs.amounts legs.low legs.high 2 maxMembers s where
  eligible i hi := by
    have hone : sumAt legs.amounts {i} ≤ sumAt legs.amounts s :=
      sumAt_mono hnonneg (Finset.singleton_subset_iff.mpr hi)
    rw [sumAt, Finset.sum_singleton] at hone
    exact ⟨Finset.mem_range.mp (h.below hi), hpos i hi, hone.trans h.high⟩
  minSize := h.atLeast
  maxSize := h.atMost
  low := h.low
  high := h.high

theorem mem_membersAt {candidates : List NormalisedTransaction} {t : NormalisedTransaction} :
    t ∈ membersAt candidates s ↔ ∃ i ∈ s, candidates[i]? = some t := by
  rw [membersAt, List.mem_filterMap]
  simp only [Finset.mem_sort]

/-! ## The whole set -/

theorem WholeFits.allowed (h : WholeFits legs maxMembers) :
    AllowedSet legs maxMembers (Finset.range legs.amounts.length) where
  below := Finset.Subset.refl _
  atLeast := (Finset.card_range _).symm ▸ h.1
  atMost := (Finset.card_range _).symm ▸ h.2.1
  low := by
    rw [sumAt_range]
    exact h.2.2.1
  high := by
    rw [sumAt_range]
    exact h.2.2.2

/-- Beside the whole set another one is allowed exactly when an amount can be left out. -/
theorem WholeFits.alone_iff (h : WholeFits legs maxMembers) (hnonneg : ∀ a ∈ legs.amounts, 0 ≤ a) :
    (∀ t, AllowedSet legs maxMembers t → t = Finset.range legs.amounts.length) ↔
      legs.amounts.length = 2 ∨
        ∀ i < legs.amounts.length, legs.amounts.sum - legs.low < legs.amounts.getD i 0 := by
  have hsplit : ∀ i < legs.amounts.length, legs.amounts.sum = legs.amounts.getD i 0 +
      sumAt legs.amounts ((Finset.range legs.amounts.length).erase i) := by
    intro i hi
    rw [← sumAt_range, sumAt, sumAt, Finset.add_sum_erase _ (fun j => legs.amounts.getD j 0)
      (Finset.mem_range.mpr hi)]
  constructor
  · intro honly
    by_contra hnot
    rw [not_or] at hnot
    obtain ⟨htwo, hnot⟩ := hnot
    push Not at hnot
    obtain ⟨i, hi, hslack⟩ := hnot
    -- Without the amount `i` the rest is still allowed.
    have hcard := Finset.card_erase_of_mem (Finset.mem_range.mpr hi)
    rw [Finset.card_range] at hcard
    have hrest : AllowedSet legs maxMembers ((Finset.range legs.amounts.length).erase i) :=
      { below := Finset.erase_subset _ _
        atLeast := by
          have := h.1
          omega
        atMost := by
          have := h.2.1
          omega
        low := by
          have := hsplit i hi
          omega
        high := by
          have := hsplit i hi
          have := getD_nonneg hnonneg i
          have := h.2.2.2
          omega }
    have heq := honly _ hrest
    exact Finset.notMem_erase i _ (heq.symm ▸ Finset.mem_range.mpr hi)
  · intro hslack t ht
    rcases hslack with htwo | hslack
    · refine Finset.eq_of_subset_of_card_le ht.below ?_
      rw [Finset.card_range, htwo]
      exact ht.atLeast
    · by_contra hne
      obtain ⟨i, hi, hit⟩ := Finset.exists_of_ssubset (ht.below.ssubset_of_ne hne)
      have hi' := Finset.mem_range.mp hi
      have hle : sumAt legs.amounts t ≤ sumAt legs.amounts ((Finset.range legs.amounts.length).erase i) :=
        sumAt_mono hnonneg (Finset.subset_erase.mpr ⟨ht.below, hit⟩)
      have := hsplit i hi'
      have := hslack i hi'
      have := ht.low
      omega

/-! ## The search -/

/-- A zero can be put into a group that has room for it. -/
theorem AllowedSet.insert_zero (h : AllowedSet legs maxMembers s) {i : Nat}
    (hi : i ∈ zeroIndices legs.amounts) (his : i ∉ s) (hroom : s.card < maxMembers) :
    AllowedSet legs maxMembers (insert i s) := by
  obtain ⟨hlt, hzero⟩ := mem_zeroIndices.mp hi
  have hsum : sumAt legs.amounts (insert i s) = sumAt legs.amounts s := by
    rw [sumAt_insert his, hzero, zero_add]
  have hcard := Finset.card_insert_of_notMem his
  exact
    { below := Finset.insert_subset (Finset.mem_range.mpr hlt) h.below
      atLeast := by
        have := h.atLeast
        omega
      atMost := by omega
      low := hsum ▸ h.low
      high := hsum ▸ h.high }

/-- A pair of candidates. -/
theorem AllowedSet.pair {i j : Nat} (hne : i ≠ j) (hi : i < legs.amounts.length)
    (hj : j < legs.amounts.length) (hmax : 2 ≤ maxMembers)
    (hlow : legs.low ≤ legs.amounts.getD i 0 + legs.amounts.getD j 0)
    (hhigh : legs.amounts.getD i 0 + legs.amounts.getD j 0 ≤ legs.high) :
    AllowedSet legs maxMembers {i, j} := by
  have hcard := Finset.card_pair hne
  have hsum : sumAt legs.amounts {i, j} = legs.amounts.getD i 0 + legs.amounts.getD j 0 :=
    Finset.sum_pair hne
  exact
    { below := Finset.insert_subset (Finset.mem_range.mpr hi)
        (Finset.singleton_subset_iff.mpr (Finset.mem_range.mpr hj))
      atLeast := hcard.ge
      atMost := hcard ▸ hmax
      low := hsum ▸ hlow
      high := hsum ▸ hhigh }

theorem FittingSet.notMem_zero (h : FittingSet legs.amounts legs.low legs.high 2 maxMembers s)
    {i : Nat} (hi : i ∈ zeroIndices legs.amounts) : i ∉ s := by
  intro his
  have := (h.eligible i his).2.1
  have := (mem_zeroIndices.mp hi).2
  omega

/-- The amounts of zero add nothing to a sum. -/
theorem sumAt_sdiff_zero (amounts : List Int) (t : Finset Nat) :
    sumAt amounts (t \ zeroIndices amounts) = sumAt amounts t := by
  rw [sumAt, sumAt]
  refine Finset.sum_subset Finset.sdiff_subset fun i hi hnot => ?_
  have hzero : i ∈ zeroIndices amounts := by
    by_contra hz
    exact hnot (Finset.mem_sdiff.mpr ⟨hi, hz⟩)
  exact (mem_zeroIndices.mp hzero).2

/-- Beside the only set of positive amounts another one is allowed exactly when amounts of zero
can be added to it, or make a set with one more amount, or by themselves. -/
theorem FittingSet.alone_iff (h : FittingSet legs.amounts legs.low legs.high 2 maxMembers s)
    (honly : ∀ t, FittingSet legs.amounts legs.low legs.high 2 maxMembers t → t = s)
    (hnonneg : ∀ a ∈ legs.amounts, 0 ≤ a) :
    (∀ t, AllowedSet legs maxMembers t → t = s) ↔
      zeroIndices legs.amounts = ∅ ∨
        (∀ t, FittingSet legs.amounts legs.low legs.high 2 maxMembers t → t.card = maxMembers) ∧
        (∀ i < legs.amounts.length, 0 < legs.amounts.getD i 0 →
          ¬ (legs.low ≤ legs.amounts.getD i 0 ∧ legs.amounts.getD i 0 ≤ legs.high)) ∧
        (0 < legs.low ∨ (zeroIndices legs.amounts).card ≤ 1) := by
  have hmax : 2 ≤ maxMembers := h.minSize.trans h.maxSize
  constructor
  · intro halone
    rcases Finset.eq_empty_or_nonempty (zeroIndices legs.amounts) with hempty | hzero
    · exact Or.inl hempty
    obtain ⟨z, hz⟩ := hzero
    obtain ⟨hzlt, hzval⟩ := mem_zeroIndices.mp hz
    refine Or.inr ⟨fun t ht => ?_, fun i hi hpos hrange => ?_, ?_⟩
    · -- A set with room takes the zero.
      obtain rfl := honly t ht
      by_contra hne
      have hadded := halone _ ((AllowedSet.of_fitting ht).insert_zero hz (ht.notMem_zero hz)
        (Nat.lt_of_le_of_ne ht.maxSize hne))
      exact ht.notMem_zero hz (hadded ▸ Finset.mem_insert_self z t)
    · -- One amount in range makes a pair with the zero.
      have hne : i ≠ z := by
        rintro rfl
        omega
      have hpair := halone _ (AllowedSet.pair hne hi hzlt hmax (by omega) (by omega))
      exact h.notMem_zero hz (hpair ▸ Finset.mem_insert_of_mem (Finset.mem_singleton_self z))
    · -- Two zeros make a pair when zero is in range.
      by_contra hnot
      rw [not_or, not_lt, not_le] at hnot
      obtain ⟨hlow, htwo⟩ := hnot
      obtain ⟨i, hi, j, hj, hne⟩ := Finset.one_lt_card.mp htwo
      obtain ⟨hilt, hival⟩ := mem_zeroIndices.mp hi
      obtain ⟨hjlt, hjval⟩ := mem_zeroIndices.mp hj
      have hhigh : 0 ≤ legs.high :=
        (Finset.sum_nonneg fun i _ => getD_nonneg hnonneg i).trans h.high
      have hpair := halone _ (AllowedSet.pair hne hilt hjlt hmax (by omega) (by omega))
      exact h.notMem_zero hi (hpair ▸ Finset.mem_insert_self i {j})
  · intro hcond t ht
    rcases hcond with hempty | ⟨hfull, hsingle, hzeros⟩
    · -- All amounts are positive.
      refine honly t (ht.fitting hnonneg fun i hi => ?_)
      have hnonzero : legs.amounts.getD i 0 ≠ 0 := by
        intro hzero
        have hmem := mem_zeroIndices.mpr ⟨Finset.mem_range.mp (ht.below hi), hzero⟩
        rw [hempty] at hmem
        exact Finset.notMem_empty i hmem
      exact lt_of_le_of_ne (getD_nonneg hnonneg i) hnonzero.symm
    · by_cases hpositive : ∀ i ∈ t, 0 < legs.amounts.getD i 0
      · exact honly t (ht.fitting hnonneg hpositive)
      · exfalso
        -- The positive part of the set, with the same sum.
        have hsub : t \ zeroIndices legs.amounts ⊆ t := Finset.sdiff_subset
        have hsum := sumAt_sdiff_zero legs.amounts t
        have hpos : ∀ i ∈ t \ zeroIndices legs.amounts, 0 < legs.amounts.getD i 0 := by
          intro i hi
          obtain ⟨hit, hiz⟩ := Finset.mem_sdiff.mp hi
          refine lt_of_le_of_ne (getD_nonneg hnonneg i) fun hzero => hiz ?_
          exact mem_zeroIndices.mpr ⟨Finset.mem_range.mp (ht.below hit), hzero.symm⟩
        have hsmaller : (t \ zeroIndices legs.amounts).card < t.card := by
          refine Finset.card_lt_card (hsub.ssubset_of_ne fun heq => hpositive fun i hi => ?_)
          exact hpos i (heq.symm ▸ hi)
        rcases Nat.lt_or_ge 1 (t \ zeroIndices legs.amounts).card with hmany | hfew
        · -- At least two positive amounts: they fill the group.
          have hfits : AllowedSet legs maxMembers (t \ zeroIndices legs.amounts) :=
            { below := hsub.trans ht.below
              atLeast := hmany
              atMost := hsmaller.le.trans ht.atMost
              low := hsum.symm ▸ ht.low
              high := hsum.symm ▸ ht.high }
          have := hfull _ (hfits.fitting hnonneg hpos)
          have := ht.atMost
          omega
        · rcases Nat.lt_or_ge 0 (t \ zeroIndices legs.amounts).card with hone | hnone
          · -- One positive amount, which is in range by itself.
            obtain ⟨i, hi⟩ := Finset.card_eq_one.mp (Nat.le_antisymm hfew hone)
            have hit : i ∈ t \ zeroIndices legs.amounts := hi ▸ Finset.mem_singleton_self i
            rw [hi, sumAt, Finset.sum_singleton] at hsum
            refine hsingle i (Finset.mem_range.mp (ht.below (hsub hit))) (hpos i hit) ?_
            exact ⟨hsum ▸ ht.low, hsum ▸ ht.high⟩
          · -- Only zeros.
            have hall : t \ zeroIndices legs.amounts = ∅ :=
              Finset.card_eq_zero.mp (Nat.le_zero.mp hnone)
            rw [hall, sumAt, Finset.sum_empty] at hsum
            have hlow := ht.low
            have hcard := Finset.card_le_card (Finset.sdiff_eq_empty_iff_subset.mp hall)
            have htwo := ht.atLeast
            rcases hzeros with hzeros | hzeros
            · omega
            · omega

end

/-! ## The amounts of a link -/

theorem toInrMinor_nonneg {amountMinor inr : Int} {currency : String} {rateInr : Rat}
    (hamount : 0 ≤ amountMinor) (hrate : 0 ≤ rateInr)
    (h : toInrMinor amountMinor currency rateInr = .ok inr) : 0 ≤ inr := by
  unfold toInrMinor at h
  split at h
  · cases h
    exact hamount
  · split at h
    · cases h
    · rename_i exponent _
      cases h
      refine Numeric.le_halfEven ?_
      have hproduct : (0 : Rat) ≤ amountMinor * rateInr :=
        mul_nonneg (by exact_mod_cast hamount) hrate
      have hscaled := mul_nonneg (rounded_nonneg hproduct)
        (zpow_nonneg (by norm_num : (0 : Rat) ≤ 10) (2 - (exponent : Int)))
      simpa using rounded_nonneg hscaled

theorem either_of_orElse {α : Type} {x y : Option α} {a : α} (h : (x <|> y) = some a) :
    x = some a ∨ y = some a := by
  cases x with
  | none => exact Or.inr h
  | some _ => exact Or.inl h

/-- A quote is one of the stored rates. -/
theorem pickQuote_mem {rows : List FxRate} {day : Date} {maxStaleDays : Int} {q : FxQuote}
    (h : pickQuote rows day maxStaleDays = some q) : ∃ r ∈ rows, q.rateInr = r.rateInr := by
  unfold pickQuote at h
  obtain ⟨best, hbest, h⟩ := Option.bind_eq_some_iff.mp h
  have hmem := List.mem_of_mem_filter (leastBy_mem hbest)
  dsimp only at h
  split at h
  · obtain ⟨chosen, hchosen, h⟩ := Option.bind_eq_some_iff.mp h
    cases h
    rcases either_of_orElse hchosen with hclean | heq
    · exact ⟨chosen, List.mem_of_mem_filter (List.mem_of_mem_filter (leastBy_mem hclean)), rfl⟩
    · cases heq
      exact ⟨_, hmem, rfl⟩
  · cases h
    exact ⟨best, hmem, rfl⟩

section

variable {d : Db} {g : GroupStrategy} {single : NormalisedTransaction}
  {candidates : List NormalisedTransaction}

/-- Rates are positive, so a quote is. -/
theorem Db.quote_nonneg (hrates : ∀ r ∈ d.rates, 0 < r.rateInr) {currency : String} {day : Date}
    {q : FxQuote} (h : d.quote currency day = some q) : 0 ≤ q.rateInr := by
  unfold Db.quote at h
  split at h
  · cases h
    norm_num
  · obtain ⟨r, hr, heq⟩ := pickQuote_mem h
    rw [heq]
    exact (hrates r (List.mem_of_mem_filter hr)).le

theorem legInr_nonneg (hrates : ∀ r ∈ d.rates, 0 < r.rateInr) {t : NormalisedTransaction}
    (ht : 0 ≤ t.amountMinor) {inr : Int} (h : (legInr t).answer d = .ok (some inr)) : 0 ≤ inr := by
  rw [legInr, bind_eq, Reads.answer_bind (reads_quote _ _)] at h
  obtain ⟨q, hq, h⟩ := except_bind_ok h
  cases q with
  | none => cases h
  | some q =>
    have hrate : d.quote t.currency t.txnDate = some q := Except.ok.inj hq
    dsimp only at h
    split at h
    · cases h
    · rename_i inr' hinr
      cases h
      exact toInrMinor_nonneg ht (Db.quote_nonneg hrates hrate) hinr

theorem legsInr_nonneg (hrates : ∀ r ∈ d.rates, 0 < r.rateInr) :
    ∀ {ts : List NormalisedTransaction} {out : List Int}, (∀ t ∈ ts, 0 ≤ t.amountMinor) →
      (legsInr ts).answer d = .ok (some out) → ∀ a ∈ out, 0 ≤ a
  | [], out, _, h => by
    cases h
    exact fun _ ha => absurd ha List.not_mem_nil
  | t :: ts, out, hts, h => by
    rw [legsInr, bind_eq, Reads.answer_bind (reads_legInr t)] at h
    obtain ⟨first, hfirst, h⟩ := except_bind_ok h
    cases first with
    | none => cases h
    | some inr =>
      dsimp only at h
      rw [bind_eq, Reads.answer_bind (reads_legsInr ts)] at h
      obtain ⟨rest, hrest, h⟩ := except_bind_ok h
      cases rest with
      | none => cases h
      | some rest =>
        cases h
        intro a ha
        rcases List.mem_cons.mp ha with rfl | ha
        · exact legInr_nonneg hrates (hts t List.mem_cons_self) hfirst
        · exact legsInr_nonneg hrates (fun x hx => hts x (List.mem_cons_of_mem t hx)) hrest a ha

/-- The amounts that a link compares are not negative. -/
theorem Db.legs_nonneg (hamounts : ∀ t ∈ single :: candidates, 0 ≤ t.amountMinor)
    (hrates : ∀ r ∈ d.rates, 0 < r.rateInr) {legs : GroupLegs}
    (h : d.legs g single candidates = .ok (some legs)) : ∀ a ∈ legs.target :: legs.amounts, 0 ≤ a := by
  unfold Db.legs groupLegs at h
  split at h
  · cases h
    intro a ha
    have ha' : a ∈ (single :: candidates).map (·.amountMinor) := ha
    obtain ⟨t, ht, rfl⟩ := List.mem_map.mp ha'
    exact hamounts t ht
  · split at h
    · cases h
    · rw [bind_eq, Reads.answer_bind (reads_legsInr _)] at h
      obtain ⟨out, hout, h⟩ := except_bind_ok h
      split at h
      · rw [bind_eq, Reads.answer_bind (reads_ofExcept _)] at h
        obtain ⟨bounds, -, h⟩ := except_bind_ok h
        cases h
        exact legsInr_nonneg hrates hamounts hout
      · cases h

end

/-! ## Claimed groups -/

section

variable {g : GroupStrategy} {maxMembers : Nat} {single : NormalisedTransaction}
  {candidates : List NormalisedTransaction} {link : GroupLink} {confidence : Nat}
  {outcome outcome' : GroupMatchOutcome} {legs : GroupLegs} {found : SubsetSearch}
  {solution : GroupSolution} {s s' : Session} {d : Db}

/-- The members are the candidates at the chosen indices. -/
theorem members_at (hincreasing : found.indices.Pairwise (· < ·)) :
    membersAt candidates found.indices.toFinset = found.indices.filterMap (candidates[·]?) := by
  have hsorted : found.indices.toFinset.sort = found.indices :=
    (List.toFinset_sort _ (hincreasing.imp Nat.ne_of_lt)).mpr (hincreasing.imp Nat.le_of_lt)
  rw [membersAt, hsorted]

/-- The two routes to a claim. -/
theorem chooseMembers_routes (hlen : legs.amounts.length = candidates.length)
    (h : chooseMembers g.config maxMembers legs candidates.length = .ok found)
    (hu : found.outcome = .unique) :
    (WholeFits legs maxMembers ∧
        found.indices.toFinset = Finset.range legs.amounts.length) ∨
      (¬ WholeFits legs maxMembers ∧
        FittingSet legs.amounts legs.low legs.high 2 maxMembers found.indices.toFinset ∧
        ∀ t, FittingSet legs.amounts legs.low legs.high 2 maxMembers t →
          t = found.indices.toFinset) := by
  rw [← hlen] at h
  unfold chooseMembers at h
  split at h
  · rename_i hwhole
    cases h
    exact Or.inl ⟨hwhole, by
      ext i
      simp⟩
  · rename_i hwhole
    split at h
    · cases h
      cases hu
    · obtain ⟨-, hfits, honly⟩ := findUniqueSubset_unique h hu
      exact Or.inr ⟨hwhole, hfits, honly⟩

/-- What is chosen is allowed, and it is the only allowed set exactly when the amounts set it
apart. -/
theorem chooseMembers_alone_iff (hlen : legs.amounts.length = candidates.length)
    (hnonneg : ∀ a ∈ legs.amounts, 0 ≤ a)
    (h : chooseMembers g.config maxMembers legs candidates.length = .ok found)
    (hu : found.outcome = .unique) :
    AllowedSet legs maxMembers found.indices.toFinset ∧
      ((∀ t, AllowedSet legs maxMembers t → t = found.indices.toFinset) ↔
        SetApart legs maxMembers) := by
  rcases chooseMembers_routes hlen h hu with ⟨hwhole, hset⟩ | ⟨hwhole, hfits, honly⟩
  · rw [hset]
    refine ⟨hwhole.allowed, (hwhole.alone_iff hnonneg).trans ⟨fun hslack => ?_, fun hapart => ?_⟩⟩
    · exact ⟨fun _ => hslack, fun hnot => absurd hwhole hnot⟩
    · exact hapart.whole hwhole
  · refine ⟨AllowedSet.of_fitting hfits,
      (hfits.alone_iff honly hnonneg).trans ⟨fun hzeros => ?_, fun hapart => ?_⟩⟩
    · exact ⟨fun hyes => absurd hyes hwhole, fun _ => hzeros⟩
    · exact hapart.searched hwhole

/-- **A claimed group is the only one exactly when the amounts set it apart.** -/
theorem groupFit_onlyGroup_iff (hamounts : ∀ t ∈ single :: candidates, 0 ≤ t.amountMinor)
    (hrates : ∀ r ∈ s.view.rates, 0 < r.rateInr)
    (hfit : (groupFit g maxMembers single candidates link confidence outcome).exec s =
      (.ok (some solution, outcome'), s'))
    (hlegs : s.view.legs g single candidates = .ok (some legs)) :
    OnlyGroup legs maxMembers candidates solution ↔ SetApart legs maxMembers := by
  have hanswer : s.view.legs g single candidates >>=
      searchFit g maxMembers single candidates link confidence outcome =
        .ok (some solution, outcome') := by
    rw [← groupFit_answer]
    exact congrArg Prod.fst ((reads_groupFit.exec s).symm.trans hfit)
  obtain ⟨out, hout, hanswer⟩ := except_bind_ok hanswer
  obtain rfl : some legs = out := Except.ok.inj (hlegs.symm.trans hout)
  obtain ⟨found, hfound, hanswer⟩ := except_bind_ok hanswer
  obtain ⟨-, hunique, hmade⟩ := concludeFit_some.mp hanswer
  have hlen := Db.legs_length hlegs
  have hnonneg : ∀ a ∈ legs.amounts, 0 ≤ a := fun a ha =>
    Db.legs_nonneg hamounts hrates hlegs a (List.mem_cons_of_mem _ ha)
  obtain ⟨hincreasing, -⟩ := chooseMembers_indices hlen hfound hunique
  obtain ⟨hallowed, hiff⟩ := chooseMembers_alone_iff hlen hnonneg hfound hunique
  rw [← hiff]
  constructor
  · intro honly
    obtain ⟨t, -, -, halone⟩ := honly
    exact fun x hx => (halone x hx).trans (halone _ hallowed).symm
  · intro halone
    refine ⟨found.indices.toFinset, ?_, hallowed, halone⟩
    rw [groupSolution_members hmade, members_at hincreasing]

end

def pairInvoice : NormalisedTransaction := partOf 1 .internal 100 "INR" "PAY-100"

def pairParts : List NormalisedTransaction :=
  [partOf 2 .external 60 "INR" "PAY-100-1", partOf 3 .external 40 "INR" "PAY-100-2"]

def pairSolution : GroupSolution :=
  { members := pairParts, confidence := 950, link := .referenceStem, fx := none
    singleMinor := 100, membersMinor := 100 }

/-- Two parts of an invoice are the only group, because neither can be left out. -/
theorem groupFit_onlyGroup_iff_pair :
    OnlyGroup { target := 100, amounts := [60, 40], low := 99, high := 101, fx := false } 10
      pairParts pairSolution := by
  have hclaimed : (groupFit plainMatcher 10 pairInvoice pairParts .referenceStem 950 {}).exec
      blankSession = (.ok (some pairSolution, {}), blankSession) := rfl
  refine (groupFit_onlyGroup_iff (by decide) (fun r hr => absurd hr List.not_mem_nil) hclaimed
    rfl).mpr ⟨fun _ => Or.inl rfl, fun hnot => absurd ?_ hnot⟩
  exact ⟨by decide, by decide, by decide, by decide⟩

/-! ## A part that could be left out -/

/-- An invoice and three parts; the first two alone also agree with it to the penny. -/
def looseInvoice : NormalisedTransaction := partOf 1 .internal 102 "INR" "PAY-100"

def looseParts : List NormalisedTransaction :=
  [partOf 2 .external 100 "INR" "PAY-100-1", partOf 3 .external 1 "INR" "PAY-100-2",
    partOf 4 .external 1 "INR" "PAY-100-3"]

def looseLegs : GroupLegs :=
  { target := 102, amounts := [100, 1, 1], low := 101, high := 103, fx := false }

/-- All three parts are claimed although two of them would do. -/
theorem looseParts_claimed :
    ∃ solution, (groupFit plainMatcher 10 looseInvoice looseParts .referenceStem 950 {}).exec
        blankSession = (.ok (some solution, {}), blankSession) ∧
      ¬ OnlyGroup looseLegs 10 looseParts solution := by
  refine ⟨_, rfl, fun honly => ?_⟩
  obtain ⟨t, -, -, halone⟩ := honly
  have hall : AllowedSet looseLegs 10 {0, 1, 2} :=
    ⟨by decide, by decide, by decide, by decide, by decide⟩
  have htwo : AllowedSet looseLegs 10 {0, 1} :=
    ⟨by decide, by decide, by decide, by decide, by decide⟩
  exact absurd ((halone _ hall).trans (halone _ htwo).symm) (by decide)

end Recon
