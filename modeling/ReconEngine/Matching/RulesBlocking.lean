import ReconEngine.Matching.BlockingCoverage
import ReconEngine.Matching.Outline
import ReconEngine.Store.Relational

/-!
# The rule stage without blocking

Both rules of a bank ask for one currency, one direction and identical references, so every pair
that a rule accepts is in one reference block. The stage therefore writes the same as one that
compares every external with the whole pool, apart from how many candidates it records, as long as
the blocked list was not cut off; an external whose list was cut off claims nothing.

**The law** (`ruleRun_wholePool`): for every pool, every rejected pair and every configuration, both
stages leave the same tables and the same outcome but for the recorded candidates.

**What it does not establish.** The same for rules of another kind. It rests on what the two rules
of a bank ask for; a rule that accepts different references would need blocks of its own.
-/

set_option autoImplicit false

namespace Recon

open Store.Prog hiding pure bind

/-! ## The stage over the whole pool -/

/-- One external against every internal of the pool. -/
def ruleTurnWhole (r : RuleStrategy) (generator : CandidateGenerator)
    (internals : List NormalisedTransaction) (rejected : List (Id × Id)) (st : RuleState)
    (external : NormalisedTransaction) : Prog RuleState :=
  match generator.generate external with
  | .error e => .fail e
  | .ok set =>
    if set.truncated then return st
    else
      let available := availableCandidates rejected st.consumed external internals
      match ruleHits r.registry available external with
      | [] => return st
      | (internal, rule, result) :: others =>
        if others ≠ [] then
          return { st with outcome.ambiguousCount := st.outcome.ambiguousCount + 1 }
        else ruleHit r st internal external rule result available.length

/-- The rule stage when blocking only says which externals have too many candidates. -/
def ruleRunWhole (r : RuleStrategy) (internals externals : List NormalisedTransaction) :
    Prog RuleMatchOutcome :=
  match CandidateGenerator.build internals r.blocking with
  | .error e => .fail e
  | .ok generator =>
    levelOn internals externals fun rejected => do
      let st ← externals.foldlM (ruleTurnWhole r generator internals rejected) {}
      return st.outcome

/-! ## What the rules accept -/

/-- What both rules of a bank ask of a pair. -/
structure RuleAgreement (internal external : NormalisedTransaction) : Prop where
  currency : internal.currency = external.currency
  direction : internal.direction = external.direction
  usable : (usableReference internal).isSome = true
  reference : internal.normalisedReference = external.normalisedReference

section

variable {internal external : NormalisedTransaction}

/-- A rule that passed its first three checks agrees in all of them. -/
theorem RuleAgreement.of_same (hcurrency : ¬ internal.currency ≠ external.currency)
    (hdirection : ¬ internal.direction ≠ external.direction)
    (hreference : ¬ (!sameReference internal external) = true) :
    RuleAgreement internal external := by
  simp only [sameReference, Bool.not_eq_true', Bool.not_eq_false, Bool.and_eq_true,
    beq_iff_eq] at hreference
  exact ⟨not_not.mp hcurrency, not_not.mp hdirection, hreference.1, hreference.2⟩

/-- What Amount Tolerance accepts agrees in currency, direction and reference. -/
theorem amountToleranceRule_agreement {tolerance days : Nat} {byCurrency : List (String × Nat)}
    (h : ((amountToleranceRule tolerance byCurrency days).evaluate internal external).matched =
      true) : RuleAgreement internal external := by
  simp only [amountToleranceRule] at h
  split_ifs at h with hcurrency hdirection hreference <;>
    first
    | exact RuleAgreement.of_same hcurrency hdirection hreference
    | cases h

theorem dateOffsetRule_agreement {calendar : BusinessCalendar} {days : Nat}
    (h : ((dateOffsetRule calendar days).evaluate internal external).matched = true) :
    RuleAgreement internal external := by
  simp only [dateOffsetRule] at h
  split_ifs at h with hsides hreference <;>
    first
    | exact RuleAgreement.of_same (fun hne => hsides (Or.inl hne)) (fun hne => hsides (Or.inr hne))
        hreference
    | cases h

/-- A pair that the registry of a bank accepts agrees. -/
theorem buildRuleStage_agreement {calendars : String → BusinessCalendar} {bank : Option BankConfig}
    {hit : Rule × RuleResult}
    (h : (buildRuleStage calendars bank).registry.evaluate internal external = some hit) :
    RuleAgreement internal external := by
  obtain ⟨rule, hrule, rfl⟩ := List.mem_map.mp (List.mem_of_find?_eq_some h)
  have hmatched : (rule.evaluate internal external).matched = true := by
    simpa using List.find?_some h
  simp only [buildRuleStage, List.mem_cons, List.not_mem_nil, or_false] at hrule
  rcases hrule with rfl | rfl
  · exact amountToleranceRule_agreement hmatched
  · exact dateOffsetRule_agreement hmatched

/-- A pair of one bank that agrees is in one reference block. -/
theorem RuleAgreement.sharesKey (h : RuleAgreement internal external)
    (hbank : internal.bankCode = external.bankCode) (config : BlockingConfig) :
    SharesKey config internal external := by
  obtain ⟨reference, href⟩ := Option.isSome_iff_exists.mp h.usable
  have href' : usableReference external = some reference := by
    rw [← href, usableReference, usableReference, h.reference]
  right
  left
  refine ⟨_, congrArg (Option.bind · _) href, ?_⟩
  simp only [referenceKey, href', Option.bind_eq_bind, Option.bind_some, Option.pure_def, hbank,
    h.currency, h.direction]

end

/-! ## The hits of an external -/

section

variable {registry : RuleRegistry} {external : NormalisedTransaction}

theorem ruleHits_nodup {candidates : List NormalisedTransaction} (h : candidates.Nodup) :
    (ruleHits registry candidates external).Nodup := by
  apply h.filterMap
  intro t t' hit ht ht'
  obtain ⟨_, -, rfl⟩ := Option.map_eq_some_iff.mp ht
  obtain ⟨_, -, heq⟩ := Option.map_eq_some_iff.mp ht'
  exact (congrArg Prod.fst heq).symm

/-- The hits among the candidates are the hits in the pool, when every pair that the registry
accepts shares a key. -/
theorem ruleHits_perm {config : BlockingConfig} {internals : List NormalisedTransaction}
    {generator : CandidateGenerator} {set : CandidateSet} (hids : (ids internals).Nodup)
    (hg : CandidateGenerator.build internals config = .ok generator)
    (hset : generator.generate external = .ok set) (hwhole : set.truncated = false)
    (hshares : ∀ internal ∈ internals, ∀ hit, registry.evaluate internal external = some hit →
      SharesKey config internal external) (rejected : List (Id × Id)) (consumed : List Id) :
    (ruleHits registry (availableCandidates rejected consumed external set.candidates)
        external).Perm
      (ruleHits registry (availableCandidates rejected consumed external internals) external) := by
  have hinternals : (availableCandidates rejected consumed external internals).Nodup :=
    (List.Nodup.of_map _ hids).filter _
  have hcandidates : (availableCandidates rejected consumed external set.candidates).Nodup :=
    (List.Nodup.of_map _ (CandidateGenerator.generate_spec hg hset).1).filter _
  rw [List.perm_ext_iff_of_nodup (ruleHits_nodup hcandidates) (ruleHits_nodup hinternals)]
  intro hit
  simp only [ruleHits, List.mem_filterMap, mem_availableCandidates,
    CandidateGenerator.mem_generate hids hg hset hwhole]
  constructor
  · rintro ⟨t, ⟨⟨ht, -⟩, hrest⟩, hhit⟩
    exact ⟨t, ⟨ht, hrest⟩, hhit⟩
  · rintro ⟨t, ⟨ht, hrest⟩, hhit⟩
    obtain ⟨accepted, haccepted, -⟩ := Option.map_eq_some_iff.mp hhit
    exact ⟨t, ⟨⟨ht, hshares t ht accepted haccepted⟩, hrest⟩, hhit⟩

end

/-! ## Both stages side by side -/

/-- Two levels on the same pools see the same rejected pairs. -/
theorem both_levelOn {α β : Type} {p : List (Id × Id) → Prog α} {q : List (Id × Id) → Prog β}
    {Q : α → β → Session → Session → Prop} {E : ReconError → ReconError → Session → Session → Prop}
    {internals externals : List NormalisedTransaction} {s : Session}
    (h : both (p (s.view.rejectedPairs (ids internals))) (q (s.view.rejectedPairs (ids internals)))
      Q E s s) :
    both (levelOn internals externals p) (levelOn internals externals q) Q E s s := by
  unfold both
  simp only [wp_levelOn]
  exact h

theorem Outline.uncounted_offer (o : Outline) (m : MatchColumns) :
    (o.offer m).uncounted = o.uncounted.offer { m with candidateCount := 0 } := by
  have hfree : o.uncounted.free { m with candidateCount := 0 } = o.free m := rfl
  rw [Outline.offer, Outline.offer, hfree]
  split
  · exact Outline.uncounted_record o m
  · rfl

/-- The two stages have done the same so far, apart from the counts of candidates and of ambiguous
externals. -/
structure RuleAlike (st st' : RuleState) (s t : Session) : Prop where
  consumed : st.consumed = st'.consumed
  autoMatched : st.outcome.autoMatchedCount = st'.outcome.autoMatchedCount
  review : st.outcome.reviewCount = st'.outcome.reviewCount
  conflicts : st.outcome.skippedClaimConflictCount = st'.outcome.skippedClaimConflictCount
  left : Identified s.supply s.view
  right : Identified t.supply t.view
  outline : s.view.outline.uncounted = t.view.outline.uncounted

/-- Both stages fail alike. -/
def FailsAlike (e e' : ReconError) (s t : Session) : Prop :=
  e = e' ∧ s.view.outline.uncounted = t.view.outline.uncounted

section

variable {r : RuleStrategy} {st st' : RuleState} {s t : Session}

/-- The hit of an external is written alike, whatever it was chosen from. -/
theorem ruleHit_alike (h : RuleAlike st st' s t) (internal external : NormalisedTransaction)
    (rule : Rule) (result : RuleResult) (count count' : Nat) :
    both (ruleHit r st internal external rule result count)
      (ruleHit r st' internal external rule result count') RuleAlike FailsAlike s t := by
  let m := ruleColumns r internal external rule result count
  let m' := ruleColumns r internal external rule result count'
  have hsame : ({ m with candidateCount := 0 } : MatchColumns) = { m' with candidateCount := 0 } :=
    rfl
  have hfree : s.view.outline.free m = t.view.outline.free m' := by
    have := congrArg (Outline.free · { m with candidateCount := 0 }) h.outline
    exact this
  have hpair : both (recordPair m) (recordPair m')
      (fun id id' s' t' => id.isSome = id'.isSome ∧ RuleAlike st st' s' t') FailsAlike s t := by
    refine both_of_wp (recordPair_outline m h.left) (recordPair_outline m' h.right) ?_
    rintro id id' s' t' ⟨hs', hs, hid⟩ ⟨ht', ht, hid'⟩
    refine ⟨by rw [hid, hid', hfree], h.consumed, h.autoMatched, h.review, h.conflicts, hs', ht', ?_⟩
    rw [hs, ht, Outline.uncounted_offer, Outline.uncounted_offer, hsame, h.outline]
  refine both_bind hpair ?_
  rintro (_ | id) (_ | id') s' t' ⟨hid, h'⟩
  · exact ⟨h'.consumed, h'.autoMatched, h'.review, congrArg (· + 1) h'.conflicts, h'.left,
      h'.right, h'.outline⟩
  · cases hid
  · cases hid
  · by_cases hauto : result.isAuto r.config = true
    · simp only [hauto, if_true]
      refine both_bind (both_of_wp (markAll_outline [internal.id, external.id] h'.left)
        (markAll_outline [internal.id, external.id] h'.right)
        (Q := fun _ _ s'' t'' => RuleAlike st st' s'' t'') ?_) ?_
      · rintro _ _ s'' t'' ⟨hs'', hmark⟩ ⟨ht'', hmark'⟩
        refine ⟨h'.consumed, h'.autoMatched, h'.review, h'.conflicts, hs'', ht'', ?_⟩
        rw [hmark, hmark', Outline.uncounted_mark, Outline.uncounted_mark, h'.outline]
      · intro _ _ s'' t'' h''
        exact ⟨congrArg (internal.id :: ·) h''.consumed, congrArg (· + 1) h''.autoMatched,
          h''.review, h''.conflicts, h''.left, h''.right, h''.outline⟩
    · simp only [hauto]
      exact ⟨congrArg (internal.id :: ·) h'.consumed, h'.autoMatched, congrArg (· + 1) h'.review,
        h'.conflicts, h'.left, h'.right, h'.outline⟩

/-- One external: with one hit both stages write it, and otherwise neither writes anything. -/
theorem ruleTurn_alike {internals : List NormalisedTransaction} {generator : CandidateGenerator}
    {external : NormalisedTransaction} (hids : (ids internals).Nodup)
    (hg : CandidateGenerator.build internals r.blocking = .ok generator)
    (hshares : ∀ internal ∈ internals, ∀ hit, r.registry.evaluate internal external = some hit →
      SharesKey r.blocking internal external) (rejected : List (Id × Id))
    (h : RuleAlike st st' s t) :
    both (ruleTurn r generator rejected st external)
      (ruleTurnWhole r generator internals rejected st' external) RuleAlike FailsAlike s t := by
  unfold ruleTurn ruleTurnWhole
  cases hset : generator.generate external with
  | error e => exact ⟨rfl, h.outline⟩
  | ok set =>
    dsimp only
    by_cases hcut : set.truncated = true
    · -- Cut off: a hit is ambiguous here, and nothing is looked at there.
      rw [if_pos hcut]
      split
      · exact h
      · rw [if_pos (Or.inr hcut)]
        exact ⟨h.consumed, h.autoMatched, h.review, h.conflicts, h.left, h.right, h.outline⟩
    · rw [if_neg hcut, ← h.consumed]
      have hperm := ruleHits_perm hids hg hset (by simpa using hcut) hshares rejected st.consumed
      split
      · rename_i hnone
        rw [hnone, List.nil_perm] at hperm
        rw [hperm]
        exact h
      · rename_i internal rule result others hhits
        rw [hhits] at hperm
        by_cases hone : others = []
        · subst hone
          rw [List.singleton_perm] at hperm
          rw [← hperm, if_neg (by simp [hcut])]
          dsimp only
          rw [if_neg (by simp)]
          exact ruleHit_alike h internal external rule result _ _
        · rw [if_pos (Or.inl hone)]
          have hlength := hperm.length_eq
          split
          · rename_i hnone
            rw [hnone] at hlength
            cases hlength
          · rename_i internal' rule' result' others' hhits'
            rw [hhits'] at hlength
            have hmore : others' ≠ [] := by
              rintro rfl
              apply hone
              simpa using hlength
            rw [if_pos hmore]
            exact ⟨rfl, h.autoMatched, h.review, h.conflicts, h.left, h.right, h.outline⟩

end

/-- **Blocking is invisible to the rule stage.** For pools of one bank, under the bank's own rules,
the blocked stage and the stage over the whole pool end alike: with the same results apart from
their candidate counts, the same claims and the same statuses. -/
theorem ruleRun_wholePool (calendars : String → BusinessCalendar) (bank : Option BankConfig)
    (run : Id) (blocking : BlockingConfig) (config : MatchingConfig)
    (internals externals : List NormalisedTransaction) (bankCode : String)
    (hbank : ∀ t ∈ internals ++ externals, t.bankCode = bankCode) (hids : (ids internals).Nodup)
    (s : Session) (h : Identified s.supply s.view) :
    both (ruleRun ⟨run, (buildRuleStage calendars bank).registry, blocking, config⟩ internals
        externals)
      (ruleRunWhole ⟨run, (buildRuleStage calendars bank).registry, blocking, config⟩ internals
        externals)
      (fun out out' s₁ s₂ => s₁.view.outline.uncounted = s₂.view.outline.uncounted ∧
        out.autoMatchedCount = out'.autoMatchedCount ∧ out.reviewCount = out'.reviewCount ∧
        out.skippedClaimConflictCount = out'.skippedClaimConflictCount)
      (fun e e' s₁ s₂ => e = e' ∧ s₁.view.outline.uncounted = s₂.view.outline.uncounted) s s := by
  unfold ruleRun ruleRunWhole
  cases hg : CandidateGenerator.build internals blocking with
  | error e => exact ⟨rfl, rfl⟩
  | ok generator =>
    have hstart : RuleAlike {} {} s s := ⟨rfl, rfl, rfl, rfl, h, h, rfl⟩
    have hloop := both_foldlM (I := RuleAlike) (E := FailsAlike) externals
      (fun external he _ _ _ _ hst => ruleTurn_alike
        (r := ⟨run, (buildRuleStage calendars bank).registry, blocking, config⟩) hids hg
        (fun internal hi hit hhit => (buildRuleStage_agreement hhit).sharesKey
          ((hbank internal (List.mem_append_left _ hi)).trans
            (hbank external (List.mem_append_right _ he)).symm) blocking)
        (s.view.rejectedPairs (ids internals)) hst) {} {} hstart
    exact both_levelOn (both_bind hloop fun st st' _ _ h' =>
      ⟨h'.outline, h'.autoMatched, h'.review, h'.conflicts⟩)

/-- A calendar without holidays. -/
def plainCalendar (name : String) : BusinessCalendar := { name := name, holidays := [] }

/-- A day whose payments the bank has booked one day later. A person has rejected the pair of 5 and
6, and 8 is claimed. -/
def lateStore : Session where
  committed :=
    { results := [{ exactColumns 0 (misreadSide 5 .internal "REF3" 1)
                      (misreadSide 6 .external "REF3" 2) 1 with id := 20, status := .rejected }],
      claims := [⟨21, 8, none, .external, .active⟩] }
  supply := 30

/-- REF2 stands for two payments. -/
def lateInternals : List NormalisedTransaction :=
  [misreadSide 1 .internal "REF1" 1, misreadSide 3 .internal "REF2" 1,
   misreadSide 5 .internal "REF3" 1, misreadSide 7 .internal "REF4" 1,
   misreadSide 9 .internal "REF2" 1]

def lateExternals : List NormalisedTransaction :=
  [misreadSide 2 .external "REF1" 2, misreadSide 4 .external "REF2" 2,
   misreadSide 6 .external "REF3" 2, misreadSide 8 .external "REF4" 2]

def lateStrategy : RuleStrategy :=
  ⟨0, (buildRuleStage plainCalendar none).registry, shippedBlocking, shippedMatchingConfig⟩

theorem lateStore_identified : Identified lateStore.supply lateStore.view :=
  ⟨⟨by decide, by decide⟩, by decide⟩

/-- The stage writes the pair of REF1, leaves REF2 as ambiguous, passes over the rejected pair of
REF3 and meets the claim of REF4; over the whole pool it does the same. -/
theorem ruleRun_wholePool_late :
    both (ruleRun lateStrategy lateInternals lateExternals)
      (ruleRunWhole lateStrategy lateInternals lateExternals)
      (fun out out' s₁ s₂ => s₁.view.outline.uncounted = s₂.view.outline.uncounted ∧
        out.autoMatchedCount = out'.autoMatchedCount ∧ out.reviewCount = out'.reviewCount ∧
        out.skippedClaimConflictCount = out'.skippedClaimConflictCount)
      (fun e e' s₁ s₂ => e = e' ∧ s₁.view.outline.uncounted = s₂.view.outline.uncounted)
      lateStore lateStore :=
  ruleRun_wholePool plainCalendar none 0 shippedBlocking shippedMatchingConfig lateInternals
    lateExternals "AXIS" (by decide) (by decide) lateStore lateStore_identified

end Recon
