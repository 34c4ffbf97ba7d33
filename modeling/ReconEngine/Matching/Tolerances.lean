import ReconEngine.Matching.Constraints
import ReconEngine.Matching.GroupTolerance
import ReconEngine.Matching.Progress

/-!
# One tolerance in three stages

The rule of a bank takes the tolerance of a currency from the minor units of the currency, where
these are not hundredths, and from the bank otherwise. The fuzzy and the group stage take it from the
bank in every currency.

**The law of agreement** (`stages_agree`). In a currency in which the rule tolerates what the bank
does, under weights that let no pair be matched automatically whose amounts score nothing, the fuzzy
stage agrees with the rule; and for a currency that is exact: some pair of it is matched automatically
and declined by the rule otherwise. The group stage agrees in such currencies too, unless it comes to
a link that mixes a foreign currency with others, which it compares by a percentage in INR.

**What it does not establish.** That a mixed link leads to a group beyond the rule's tolerance: the
percentage of a small sum may be less than that.
-/

set_option autoImplicit false

namespace Recon

open Store (mem_chunksOf)
open Store.Prog hiding pure bind

/-! ## The rule -/

/-- The tolerance of a bank in minor units of any currency. -/
def bankTolerance (bank : Option BankConfig) : Nat :=
  (bank.map BankConfig.amountToleranceMinor).getD 1

/-- The tolerance of the bank's rule in a currency. -/
def ruleTolerance (bank : Option BankConfig) (currency : String) : Nat :=
  (pennyTolerances.lookup currency).getD (bankTolerance bank)

/-- The bank's Amount Tolerance rule accepts a pair in this currency with this difference. -/
def AcceptsDifference (calendars : String → BusinessCalendar) (bank : Option BankConfig)
    (currency : String) (difference : Int) : Prop :=
  ∃ rule ∈ (buildRuleStage calendars bank).registry, rule.name = "AMOUNT_TOLERANCE" ∧
    ∃ internal external : NormalisedTransaction, internal.currency = currency ∧
      internal.amountMinor - external.amountMinor = difference ∧
      (rule.evaluate internal external).matched = true

section

variable {calendars : String → BusinessCalendar} {bank : Option BankConfig} {currency : String}
  {difference : Int}

/-- The rule accepts a difference within its tolerance. -/
theorem acceptsDifference_iff :
    AcceptsDifference calendars bank currency difference ↔
      |difference| ≤ ruleTolerance bank currency := by
  rw [Int.abs_eq_natAbs, Int.ofNat_le]
  constructor
  · intro h
    obtain ⟨rule, hrule, hname, internal, external, rfl, rfl, hmatched⟩ := h
    rcases List.mem_cons.mp hrule with rfl | hrule
    · simp only [amountToleranceRule] at hmatched
      split_ifs at hmatched with h₁ h₂ h₃ h₄ h₅
      · cases hmatched
      · cases hmatched
      · cases hmatched
      · cases hmatched
      · cases hmatched
      · exact Nat.not_lt.mp h₅
    · rw [List.mem_singleton.mp hrule] at hname
      exact absurd (show "DATE_OFFSET" = "AMOUNT_TOLERANCE" from hname) (by decide)
  · intro h
    let side (amountMinor : Int) : NormalisedTransaction :=
      { partOf 0 .internal amountMinor currency "R" with normalisedReference := some "R" }
    have hcurrency : (side difference).currency = (side 0).currency := rfl
    have hdirection : (side difference).direction = (side 0).direction := rfl
    have hreference : sameReference (side difference) (side 0) = true := rfl
    have hdays : daysApart (side difference) (side 0) = 0 := rfl
    refine ⟨_, List.mem_cons_self, rfl, side difference, side 0, rfl, Int.sub_zero difference, ?_⟩
    simp only [amountToleranceRule]
    rw [if_neg (not_not.mpr hcurrency), if_neg (not_not.mpr hdirection), hreference, hdays,
      if_neg (by decide), if_neg (by decide), if_neg]
    rw [not_lt]
    exact (Int.sub_zero difference).symm ▸ h

end

/-! ## Pairs -/

/-- Full marks in all else match a pair automatically whose amounts have this score. -/
def CarriesAmount (config : MatchingConfig) (amount : Rat) : Prop :=
  config.thresholds.autoMatchConfidence <
      ((bookScores 1 amount 1 1).confidence config.weights : Rat) / 1000 ∧
    config.thresholds.minIndependentSignalsForAutoMatch ≤
      (bookScores 1 amount 1 1).independentSignals config.thresholds

/-- The rule of the currency tolerates what the bank does. -/
def CurrencyTolerated (bank : Option BankConfig) (currency : String) : Prop :=
  bankTolerance bank ≤ ruleTolerance bank currency

/-- The weights let no pair be matched whose amounts score nothing, nor, in a currency in which the
rule tolerates less than the bank, one whose amounts have the score of a tolerated difference. -/
def WeightsAgree (bank : Option BankConfig) (config : MatchingConfig) (currency : String) : Prop :=
  ¬ CarriesAmount config 0 ∧ (CurrencyTolerated bank currency ∨ ¬ CarriesAmount config (4 / 5))

instance (config : MatchingConfig) (amount : Rat) : Decidable (CarriesAmount config amount) :=
  inferInstanceAs (Decidable (_ ∧ _))

instance (bank : Option BankConfig) (currency : String) : Decidable (CurrencyTolerated bank currency) :=
  inferInstanceAs (Decidable (_ ≤ _))

instance (bank : Option BankConfig) (config : MatchingConfig) (currency : String) :
    Decidable (WeightsAgree bank config currency) :=
  inferInstanceAs (Decidable (_ ∧ (_ ∨ _)))

/-- The row pairs transactions of the pools in one currency with an accepted difference. -/
def PairAgrees (calendars : String → BusinessCalendar) (bank : Option BankConfig)
    (internals externals : List NormalisedTransaction) (m : MatchColumns) : Prop :=
  ∃ internal ∈ internals, ∃ external ∈ externals, m.internalTransactionId = internal.id ∧
    m.externalTransactionId = external.id ∧ internal.currency = external.currency ∧
    AcceptsDifference calendars bank internal.currency (internal.amountMinor - external.amountMinor)

section

variable {calendars : String → BusinessCalendar} {bank : Option BankConfig} {f : FuzzyStrategy}
  {internal external : NormalisedTransaction} {internals externals : List NormalisedTransaction}
  {generator : CandidateGenerator} {rejected : List (Id × Id)} {currency : String}

/-- A pair that is matched automatically is one that full marks carry with the score of its amounts. -/
theorem carries_of_autoMatch (ht : f.text.Lawful) (hc : f.config.Accepted f.text.float)
    (hauto : (scoreCandidate f.text f.amountToleranceMinor f.config internal external).decision =
      .autoMatch) :
    CarriesAmount f.config
      (scoreAmount internal.amountMinor external.amountMinor f.amountToleranceMinor) := by
  obtain ⟨-, hband, hsignals, -⟩ := decideMatch_autoMatch hauto
  have hbelow : (fieldScores f.text f.amountToleranceMinor f.config internal external).Below
      (bookScores 1 (scoreAmount internal.amountMinor external.amountMinor f.amountToleranceMinor)
        1 1) := by
    have h : (fieldScores f.text f.amountToleranceMinor f.config internal external).Below
        fullMarks := fieldScores_below ht f.amountToleranceMinor internal external
    exact { h with amount := ⟨h.amount.1, le_refl _⟩ }
  have hconfidence : ((fieldScores f.text f.amountToleranceMinor f.config internal
      external).confidence f.config.weights : Rat) ≤ (bookScores 1 (scoreAmount internal.amountMinor
        external.amountMinor f.amountToleranceMinor) 1 1).confidence f.config.weights := by
    exact_mod_cast FieldScores.confidence_mono (fun w hw => (hc.weights w hw).1) hbelow
  refine ⟨by linarith, hsignals.trans ?_⟩
  exact hbelow.signals rfl

/-- A pair that is matched automatically is accepted where the weights agree. -/
theorem autoMatch_accepted (hf : f.amountToleranceMinor = bankTolerance bank)
    (ht : f.text.Lawful) (hc : f.config.Accepted f.text.float)
    (hauto : (scoreCandidate f.text f.amountToleranceMinor f.config internal external).decision =
      .autoMatch) (hagree : WeightsAgree bank f.config internal.currency) :
    internal.currency = external.currency ∧
      AcceptsDifference calendars bank internal.currency
        (internal.amountMinor - external.amountMinor) := by
  have hproposed : (scoreCandidate f.text f.amountToleranceMinor f.config internal external).decision ≠
      .noMatch := by
    rw [hauto]
    exact nofun
  refine ⟨(scoreCandidate_proposed hproposed).2, acceptsDifference_iff.mpr ?_⟩
  have hcarries := carries_of_autoMatch ht hc hauto
  obtain ⟨hzero, htolerated⟩ := hagree
  unfold scoreAmount at hcarries
  split_ifs at hcarries with heq hwithin
  · rw [heq, sub_self, abs_zero]
    exact Int.natCast_nonneg _
  · rw [hf] at hwithin
    have hle := htolerated.resolve_right (not_not.mpr hcarries)
    exact hwithin.trans (Int.ofNat_le.mpr hle)
  · exact absurd hcarries hzero

/-- A side of a payment to ACME in a currency. -/
def currencySide (id : Id) (source : Source) (currency : String) (amountMinor : Int) :
    NormalisedTransaction :=
  { paymentSide id source "AAAA" with
    amountMinor := amountMinor
    currency := currency
    counterpartyNameNormalised := some "ACME" }

/-- Whether a pair is in the automatic band, by its scores. -/
theorem inAutoBand_iff {text : TextSimilarity} {config : MatchingConfig} {tolerance : Int}
    {scores : FieldScores} (h : fieldScores text tolerance config internal external = scores) :
    InAutoBand text config tolerance internal external ↔
      config.thresholds.autoMatchConfidence < (scores.confidence config.weights : Rat) / 1000 ∧
      config.thresholds.minIndependentSignalsForAutoMatch ≤
        scores.independentSignals config.thresholds ∧
      (differsOnlyInDigits (internal.normalisedReference.getD "")
        (external.normalisedReference.getD "") &&
          decide (scores.counterparty < config.thresholds.counterpartyTokenSetRatio)) = false := by
  rw [← h]
  exact Iff.rfl

/-- What full marks carry is matched automatically. -/
theorem currencySides_autoMatch (ht : f.text.Lawful) {amount amount' : Int}
    (h : CarriesAmount f.config (scoreAmount amount amount' f.amountToleranceMinor)) :
    (scoreCandidate f.text f.amountToleranceMinor f.config (currencySide 1 .internal currency amount)
      (currencySide 2 .external currency amount')).decision = .autoMatch := by
  have hname : scoreCounterparty f.text (some "ACME") (some "ACME") = 1 := by
    simp only [scoreCounterparty, ht.tokenSetRatioSelf "ACME" (by decide),
      ht.float.divSelf 100 (by norm_num)]
    exact if_neg (by decide)
  have hreference : scoreReference f.text f.config.thresholds "AAAA" "AAAA" = 1 := if_pos rfl
  have hdate : scoreDate 0 0 = 1 := by decide +kernel
  have hgate : ∀ {α : Type} [DecidableEq α] (x : α), scoreGate x x = 1 :=
    fun x => scoreGate_eq_one.mpr rfl
  have hscores : fieldScores f.text f.amountToleranceMinor f.config
      (currencySide 1 .internal currency amount) (currencySide 2 .external currency amount') =
        bookScores 1 (scoreAmount amount amount' f.amountToleranceMinor) 1 1 := by
    simp [fieldScores, currencySide, paymentSide, bookScores, hname, hreference, hdate, hgate]
  have hdigits : differsOnlyInDigits
      ((currencySide 1 .internal currency amount).normalisedReference.getD "")
      ((currencySide 2 .external currency amount').normalisedReference.getD "") = false := by
    simp [currencySide, paymentSide, differsOnlyInDigits]
  have hbook : SameBook (currencySide 1 .internal currency amount)
      (currencySide 2 .external currency amount') := ⟨rfl, rfl, rfl⟩
  rw [autoMatch_iff hbook, inAutoBand_iff hscores, hdigits, Bool.false_and]
  obtain ⟨hband, hsignals⟩ := h
  exact ⟨hband, hsignals, rfl⟩

/-- The weights agree in a currency exactly when every pair of it that is matched automatically is
accepted. -/
theorem weightsAgree_iff (hf : f.amountToleranceMinor = bankTolerance bank) (ht : f.text.Lawful)
    (hc : f.config.Accepted f.text.float) :
    WeightsAgree bank f.config currency ↔ ∀ internal external : NormalisedTransaction,
      internal.currency = currency →
        (scoreCandidate f.text f.amountToleranceMinor f.config internal external).decision =
          .autoMatch →
        AcceptsDifference calendars bank currency (internal.amountMinor - external.amountMinor) := by
  constructor
  · rintro hagree internal external rfl hauto
    exact (autoMatch_accepted hf ht hc hauto hagree).2
  · intro h
    have hdeclined : ∀ difference : Nat, ruleTolerance bank currency < difference →
        ¬ CarriesAmount f.config (scoreAmount (1 + difference) 1 f.amountToleranceMinor) := by
      intro difference hover hcarries
      have haccepts := h (currencySide 1 .internal currency (1 + difference))
        (currencySide 2 .external currency 1) rfl (currencySides_autoMatch ht hcarries)
      have hle := acceptsDifference_iff.mp haccepts
      rw [show (currencySide 1 .internal currency (1 + difference)).amountMinor -
        (currencySide 2 .external currency 1).amountMinor = (difference : Int) from
          add_sub_cancel_left 1 (difference : Int)] at hle
      rw [abs_of_nonneg (Int.natCast_nonneg _)] at hle
      omega
    have hscore : ∀ difference : Nat, 0 < difference →
        scoreAmount (1 + difference) 1 f.amountToleranceMinor =
          if difference ≤ bankTolerance bank then 4 / 5 else 0 := by
      intro difference hpos
      rw [scoreAmount, if_neg (by omega), hf, add_sub_cancel_left,
        abs_of_nonneg (Int.natCast_nonneg _)]
      simp only [Int.ofNat_le]
    constructor
    · -- One more than both tolerate scores nothing.
      have hboth := hdeclined (ruleTolerance bank currency + bankTolerance bank + 1) (by omega)
      rwa [hscore _ (by omega), if_neg (by omega)] at hboth
    · by_cases htolerated : CurrencyTolerated bank currency
      · exact Or.inl htolerated
      · -- One more than the rule tolerates is within what the bank does.
        unfold CurrencyTolerated at htolerated
        have hone := hdeclined (ruleTolerance bank currency + 1) (by omega)
        rw [hscore _ (by omega), if_pos (by omega)] at hone
        exact Or.inr hone

/-- What is chosen for an automatic match agrees. -/
theorem fuzzyChoose_agrees (hf : f.amountToleranceMinor = bankTolerance bank)
    (ht : f.text.Lawful) (hc : f.config.Accepted f.text.float)
    (hg : CandidateGenerator.build internals f.blocking = .ok generator)
    (hagree : ∀ t ∈ internals, WeightsAgree bank f.config t.currency) {consumed : List Id}
    {chosen : List MatchColumns}
    (h : fuzzyChoose f generator rejected consumed externals = .ok chosen) :
    ∀ m ∈ chosen, m.status = .autoMatched → PairAgrees calendars bank internals externals m := by
  intro m hm hstatus
  obtain ⟨internal, external, count, set, he, hset, hcand, -, rfl⟩ :=
    fuzzyChoose_origin (fun t ht => ht) h m hm
  have hi := (CandidateGenerator.generate_shares hg hset hcand).1
  have hauto : (scoreCandidate f.text f.amountToleranceMinor f.config internal external).decision =
      .autoMatch := by
    by_contra hne
    simp [fuzzyColumns, hne] at hstatus
  obtain ⟨hcurrency, haccepts⟩ :=
    @autoMatch_accepted calendars _ _ _ _ hf ht hc hauto (hagree internal hi)
  exact ⟨internal, hi, external, he, rfl, rfl, hcurrency, haccepts⟩

/-- The rows that the fuzzy stage adds. -/
theorem fuzzyRun_agrees (hf : f.amountToleranceMinor = bankTolerance bank)
    (ht : f.text.Lawful) (hc : f.config.Accepted f.text.float)
    (hagree : ∀ t ∈ internals, WeightsAgree bank f.config t.currency) (s : Session) :
    (fuzzyRun f internals externals).wp (fun _ s' => ∃ new,
        s'.view.results = s.view.results ++ new ∧ ∀ r ∈ new, r.status = .autoMatched →
          PairAgrees calendars bank internals externals r.toMatchColumns)
      (fun _ _ => True) s := by
  unfold fuzzyRun
  split
  · trivial
  · rename_i generator hg
    rw [wp_levelOn]
    split
    · trivial
    · rename_i chosen hchosen
      have hwork := Work.foldlM (Store.chunksOf writeChunkSize chosen) {} fun outcome chunk hchunk =>
        @fuzzyChunk_stage chunk (fun m => m.status = .autoMatched →
          PairAgrees calendars bank internals externals m) outcome fun m hm =>
            fuzzyChoose_agrees hf ht hc hg hagree hchosen m (mem_chunksOf hchunk hm)
      refine (advances hwork s).mono (fun _ s' h => ?_) fun _ _ _ => trivial
      obtain ⟨-, new, hadvanced, hok⟩ := h
      exact ⟨new, hadvanced.results, hok⟩

end

/-! ## Groups -/

section

variable {calendars : String → BusinessCalendar} {bank : Option BankConfig} {g : GroupStrategy}
  {internals externals : List NormalisedTransaction}

/-- The groups that the group stage records. -/
theorem groupRun_within {s : Session} (hg : g.config.toleranceMinor = bankTolerance bank)
    (hbelow : ∀ c ∈ s.view.claims, c.id < s.supply)
    (htolerated : ∀ t ∈ internals ++ externals, CurrencyTolerated bank t.currency)
    (hmeets : TurnsMeet g internals externals (fun kind st single s' => ¬ TurnMixes s'.view g
      kind (kind.pool internals externals) (s.view.rejectedPairs (ids internals)) st.consumed single)
        s) :
    (groupRun g internals externals).wp (fun outcome s' => ∃ groups : List RecordedGroup,
        groups.map (·.id) = outcome.matchGroupIds ∧ GroupsRecorded g.run s.view s'.view groups ∧
        ∀ group ∈ groups, group.OneCurrency →
          AcceptsDifference calendars bank group.single.currency group.difference)
      (fun _ _ => True) s := by
  refine (groupRun_singles_agree hbelow hmeets).mono ?_ fun _ _ _ => trivial
  intro outcome s' h
  obtain ⟨groups, hids, hrecorded, hall⟩ := h
  refine ⟨groups, hids, hrecorded, fun group hgroup hone => acceptsDifference_iff.mpr ?_⟩
  obtain ⟨hsingle, hagrees⟩ := hall group hgroup
  have hwithin := hagrees hone
  rw [hg] at hwithin
  exact hwithin.trans (Int.ofNat_le.mpr (htolerated _ hsingle))

/-! ## Both stages -/

/-- **The stages agree on amount tolerance.** In a currency the weights agree exactly when every pair
of it that is matched automatically is accepted by the rule. Where they agree in the currencies of
the pool the rows of the fuzzy stage are accepted, and where the rule tolerates what the bank does,
the groups of the group stage are, in every run that comes to no link which mixes currencies. -/
theorem stages_agree (calendars : String → BusinessCalendar) (bank : Option BankConfig)
    {f : FuzzyStrategy} {g : GroupStrategy} {internals externals : List NormalisedTransaction}
    {s : Session} (ht : f.text.Lawful) (hc : f.config.Accepted f.text.float)
    (hf : f.amountToleranceMinor = bankTolerance bank)
    (hg : g.config.toleranceMinor = bankTolerance bank)
    (hbelow : ∀ c ∈ s.view.claims, c.id < s.supply) :
    (∀ currency, WeightsAgree bank f.config currency ↔ ∀ internal external : NormalisedTransaction,
      internal.currency = currency →
        (scoreCandidate f.text f.amountToleranceMinor f.config internal external).decision =
          .autoMatch →
        AcceptsDifference calendars bank currency (internal.amountMinor - external.amountMinor)) ∧
    ((∀ t ∈ internals, WeightsAgree bank f.config t.currency) →
      (fuzzyRun f internals externals).wp (fun _ s' => ∃ new,
          s'.view.results = s.view.results ++ new ∧ ∀ r ∈ new, r.status = .autoMatched →
            PairAgrees calendars bank internals externals r.toMatchColumns)
        (fun _ _ => True) s) ∧
    ((∀ t ∈ internals ++ externals, CurrencyTolerated bank t.currency) →
      TurnsMeet g internals externals (fun kind st single s' => ¬ TurnMixes s'.view g
        kind (kind.pool internals externals) (s.view.rejectedPairs (ids internals)) st.consumed
          single) s →
      (groupRun g internals externals).wp (fun outcome s' => ∃ groups : List RecordedGroup,
          groups.map (·.id) = outcome.matchGroupIds ∧
          GroupsRecorded g.run s.view s'.view groups ∧ ∀ group ∈ groups, group.OneCurrency →
            AcceptsDifference calendars bank group.single.currency group.difference)
        (fun _ _ => True) s) :=
  ⟨fun _ => weightsAgree_iff hf ht hc, fun hagree => fuzzyRun_agrees hf ht hc hagree s,
    groupRun_within hg hbelow⟩

end

/-- The fuzzy stage of a bank without settings. -/
def shippedFuzzy : FuzzyStrategy where
  run := 0
  blocking := dailyBlocking
  amountToleranceMinor := 1
  config := shippedMatchingConfig
  text := literalSimilarity

/-- A payment whose two sides are a paisa apart, beside the invoice and its parts. -/
def paisaApart (id : Id) (source : Source) (amountMinor : Int) : NormalisedTransaction :=
  { partOf id source amountMinor "INR" "UTR-7" with counterpartyNameNormalised := some "ACME" }

def agreeingDay : Session where
  committed :=
    { transactions := [invoice, paisaApart 4 .internal 50000, firstPart, secondPart,
        paisaApart 5 .external 50001] }
  supply := 6

/-- The payment is matched as a pair and the invoice with its parts as a group, and the rule accepts
both. -/
theorem stages_agree_invoice :
    (fuzzyRun shippedFuzzy [invoice, paisaApart 4 .internal 50000]
        [firstPart, secondPart, paisaApart 5 .external 50001]).wp (fun _ s' => ∃ new,
        s'.view.results = agreeingDay.view.results ++ new ∧ ∀ r ∈ new, r.status = .autoMatched →
          PairAgrees (fun name => { name := name, holidays := [] }) none
            [invoice, paisaApart 4 .internal 50000]
            [firstPart, secondPart, paisaApart 5 .external 50001] r.toMatchColumns)
      (fun _ _ => True) agreeingDay ∧
    (groupRun plainMatcher [invoice, paisaApart 4 .internal 50000]
        [firstPart, secondPart, paisaApart 5 .external 50001]).wp (fun outcome s' =>
        ∃ groups : List RecordedGroup, groups.map (·.id) = outcome.matchGroupIds ∧
          GroupsRecorded plainMatcher.run agreeingDay.view s'.view groups ∧
          ∀ group ∈ groups, group.OneCurrency → AcceptsDifference
            (fun name => { name := name, holidays := [] }) none group.single.currency
              group.difference)
      (fun _ _ => True) agreeingDay := by
  have hagree := @stages_agree (fun name => { name := name, holidays := [] }) none shippedFuzzy
    plainMatcher [invoice, paisaApart 4 .internal 50000]
    [firstPart, secondPart, paisaApart 5 .external 50001] agreeingDay literalSimilarity_lawful
    shippedMatchingConfig_accepted rfl rfl fun _ hc => absurd hc List.not_mem_nil
  have hinr : ∀ t ∈ [invoice, paisaApart 4 .internal 50000] ++
      [firstPart, secondPart, paisaApart 5 .external 50001], t.currency = "INR" := by decide
  have htolerated : CurrencyTolerated none "INR" := by decide +kernel
  refine ⟨hagree.2.1 fun t ht => ?_, hagree.2.2 (fun t ht => hinr t ht ▸ htolerated)
    (TurnsMeet.of_all fun kind single hsingle st s' => not_mixes_of_oneCurrency fun t ht => ?_)⟩
  · rw [hinr t (List.mem_append_left _ ht)]
    decide +kernel
  · cases kind with
    | split =>
      exact (hinr t (List.mem_append_right _ ht)).trans
        (hinr single (List.mem_append_left _ hsingle)).symm
    | netted =>
      exact (hinr t (List.mem_append_left _ ht)).trans
        (hinr single (List.mem_append_right _ hsingle)).symm

/-! ## A pair of yen -/

/-- One side of a payment of ACME in yen. -/
def yenSide (id : Id) (source : Source) (amountMinor : Int) : NormalisedTransaction :=
  { paymentSide id source "AAAA" with
    amountMinor := amountMinor
    currency := "JPY"
    counterpartyNameNormalised := some "ACME" }

def yenDay : Session where
  committed := { transactions := [yenSide 1 .internal 1000, yenSide 2 .external 1001] }
  supply := 3

/-- Payments of 1000 and 1001 yen are matched automatically; the rule would not accept them. -/
theorem yenPair_exceeds : ∃ (outcome : FuzzyMatchOutcome) (s' : Session) (r : MatchResult),
    (fuzzyRun shippedFuzzy [yenSide 1 .internal 1000] [yenSide 2 .external 1001]).exec
      yenDay = (.ok outcome, s') ∧
    s'.view.results = [r] ∧ r.status = .autoMatched ∧
    ¬ PairAgrees (fun name => { name := name, holidays := [] }) none [yenSide 1 .internal 1000]
      [yenSide 2 .external 1001] r.toMatchColumns := by
  let run := (fuzzyRun shippedFuzzy [yenSide 1 .internal 1000] [yenSide 2 .external 1001]).exec
    yenDay
  have hrun : run.1 = .ok { autoMatchedCount := 1, matchResultIds := [3] } := by decide +kernel
  obtain ⟨r, hr⟩ : ∃ r, run.2.view.results = [r] := List.length_eq_one_iff.mp (by decide +kernel)
  have hstatus : ∀ r ∈ run.2.view.results, r.status = .autoMatched := by decide +kernel
  refine ⟨_, run.2, r, Prod.ext hrun rfl, hr, hstatus r (hr ▸ List.mem_singleton_self r), fun h => ?_⟩
  obtain ⟨internal, hi, external, he, -, -, -, haccepts⟩ := h
  rw [List.mem_singleton.mp hi, List.mem_singleton.mp he, acceptsDifference_iff] at haccepts
  exact absurd haccepts (by decide +kernel)

end Recon
