import ReconEngine.Matching.Evidence

/-!
# What blocking covers

A candidate list that is not cut off holds exactly the internals that share a block with the
external. The score knows no blocks, so a pair that it would match automatically is out of reach
when it lies on two sides of a bucket boundary.

**The law** (`generate_holds_autoMatches_iff`): where the list of candidates is not cut off, it
holds every internal that the score would match automatically if and only if each of those shares a
block with the external. Sharing a block is a predicate of the two rows and of the bucket widths.

**What it does not establish.** Which pairs the score matches automatically: the similarity of texts
is a parameter, and the law holds for every one.
-/

set_option autoImplicit false

namespace Recon

/-! ## Everything that shares a key -/

theorem mem_indexBy_of_key {κ : Type} {key : NormalisedTransaction → Except ReconError (Option κ)}
    {k : κ} {t : NormalisedTransaction} (hkey : key t = .ok (some k)) :
    ∀ {ts : List NormalisedTransaction} {index : List (κ × NormalisedTransaction)},
      indexBy key ts = .ok index → t ∈ ts → (k, t) ∈ index
  | [], index, _, hmem => absurd hmem List.not_mem_nil
  | t' :: ts, index, h, hmem => by
    obtain ⟨k', hk', h⟩ := except_bind_ok h
    obtain ⟨rest, hrest, h⟩ := except_bind_ok h
    cases h
    rcases List.mem_cons.mp hmem with rfl | hmem
    · apply List.mem_append_left
      rw [Except.ok.inj (hk'.symm.trans hkey)]
      simp
    · exact List.mem_append_right _ (mem_indexBy_of_key hkey hrest hmem)

/-- The union names every transaction by its identifier. -/
theorem ids_distinctById (ts : List NormalisedTransaction) :
    ∀ t ∈ ts, t.id ∈ ids (distinctById ts) := by
  have hadd : ∀ (seen : List NormalisedTransaction) (t : NormalisedTransaction) (id : Id),
      id ∈ ids seen ∨ id = t.id → id ∈ ids (addCandidate seen t) := by
    intro seen t id h
    unfold addCandidate
    split
    · rename_i hseen
      rcases h with h | rfl
      · exact h
      · exact hseen
    · simpa [ids] using h
  have hloop : ∀ (rest seen : List NormalisedTransaction) (id : Id),
      id ∈ ids seen ∨ id ∈ ids rest → id ∈ ids (rest.foldl addCandidate seen) := by
    intro rest
    induction rest with
    | nil =>
      intro seen id h
      simpa [ids] using h
    | cons t rest ih =>
      intro seen id h
      apply ih
      rcases h with h | h
      · exact Or.inl (hadd seen t id (Or.inl h))
      · rcases List.mem_cons.mp h with h | h
        · exact Or.inl (hadd seen t id (Or.inr h))
        · exact Or.inr h
  exact fun t ht => hloop ts [] t.id (Or.inr (List.mem_map_of_mem ht))

/-- Of distinct transactions none is left out. -/
theorem mem_distinctById {ts : List NormalisedTransaction}
    (hids : ∀ t ∈ ts, ∀ t' ∈ ts, t.id = t'.id → t = t') {t : NormalisedTransaction} :
    t ∈ distinctById ts ↔ t ∈ ts := by
  constructor
  · exact (distinctById_spec ts).2 t
  · intro ht
    obtain ⟨t', ht', hid⟩ := List.mem_map.mp (ids_distinctById ts t ht)
    rw [← hids t' ((distinctById_spec ts).2 t' ht') t ht hid]
    exact ht'

section

variable {config : BlockingConfig} {internals : List NormalisedTransaction}
  {g : CandidateGenerator} {external t : NormalisedTransaction} {out : CandidateSet}

/-- What the indexes of a generator hold. -/
structure CandidateGenerator.Indexes (g : CandidateGenerator) (config : BlockingConfig)
    (internals : List NormalisedTransaction) : Prop where
  settings : g.config = config
  amount : indexBy (fun t => do return some (← amountDateKey config t)) internals =
    .ok g.byAmountBucket
  reference : indexBy (fun t => .ok (referenceKey config t)) internals = .ok g.byReferencePrefix
  counterparty : indexBy (counterpartyDateKey config) internals = .ok g.byCounterparty

/-- The three indexes of a generator are over its internals. -/
theorem CandidateGenerator.indexes_of_build
    (hg : CandidateGenerator.build internals config = .ok g) : g.Indexes config internals := by
  obtain ⟨byAmount, hAmount, hg⟩ := except_bind_ok hg
  obtain ⟨byReference, hReference, hg⟩ := except_bind_ok hg
  obtain ⟨byCounterparty, hCounterparty, hg⟩ := except_bind_ok hg
  cases hg
  exact ⟨rfl, hAmount, hReference, hCounterparty⟩

namespace CandidateGenerator.Indexes

variable (hg : g.Indexes config internals)

include hg

/-- The first pass finds the internals with the key of the external. -/
theorem mem_passA {a : List NormalisedTransaction} (h : g.passA external = .ok a) :
    t ∈ a ↔ t ∈ internals ∧
      ∃ k, amountDateKey config t = .ok k ∧ amountDateKey config external = .ok k := by
  obtain ⟨key, hkey, h⟩ := except_bind_ok h
  cases h
  rw [hg.settings] at hkey
  rw [mem_bucketOf]
  constructor
  · intro ht
    obtain ⟨hin, ht⟩ := mem_indexBy hg.amount ht
    obtain ⟨key', hkey', heq⟩ := except_bind_ok ht
    cases heq
    exact ⟨hin, _, hkey', hkey⟩
  · rintro ⟨hin, k, hk, hk'⟩
    rw [Except.ok.inj (hkey.symm.trans hk')]
    refine mem_indexBy_of_key ?_ hg.amount hin
    rw [hk]
    rfl

theorem mem_passB : t ∈ g.passB external ↔ t ∈ internals ∧
    ∃ k, referenceKey config t = some k ∧ referenceKey config external = some k := by
  unfold passB
  rw [hg.settings]
  cases hkey : referenceKey config external with
  | none => simp
  | some key =>
    dsimp only
    rw [mem_bucketOf]
    constructor
    · intro ht
      obtain ⟨hin, ht⟩ := mem_indexBy hg.reference ht
      exact ⟨hin, key, Except.ok.inj ht, rfl⟩
    · rintro ⟨hin, k, hk, heq⟩
      rw [Option.some.inj heq]
      exact mem_indexBy_of_key (congrArg Except.ok hk) hg.reference hin

theorem mem_passC {c : List NormalisedTransaction} (h : g.passC external = .ok c) :
    t ∈ c ↔ t ∈ internals ∧ ∃ k, counterpartyDateKey config t = .ok (some k) ∧
      counterpartyDateKey config external = .ok (some k) := by
  obtain ⟨key, hkey, h⟩ := except_bind_ok h
  rw [hg.settings] at hkey
  rw [hkey]
  cases key with
  | none =>
    cases h
    simp
  | some key =>
    cases h
    rw [mem_bucketOf]
    constructor
    · intro ht
      obtain ⟨hin, ht⟩ := mem_indexBy hg.counterparty ht
      exact ⟨hin, key, ht, rfl⟩
    · rintro ⟨hin, k, hk, heq⟩
      rw [Option.some.inj (Except.ok.inj heq)]
      exact mem_indexBy_of_key hk hg.counterparty hin

/-- The three passes together name the internals that share a key. -/
theorem mem_passes {a c : List NormalisedTransaction} (ha : g.passA external = .ok a)
    (hc : g.passC external = .ok c) :
    t ∈ a ++ g.passB external ++ c ↔ t ∈ internals ∧ SharesKey config t external := by
  simp only [List.mem_append, hg.mem_passA ha, hg.mem_passB, hg.mem_passC hc, SharesKey, or_assoc,
    and_or_left]

end CandidateGenerator.Indexes

/-- An internal that shares a key is a candidate, unless the list was cut off. -/
theorem CandidateGenerator.generate_covers (hids : (ids internals).Nodup)
    (hg : CandidateGenerator.build internals config = .ok g) (h : g.generate external = .ok out)
    (hwhole : out.truncated = false) (ht : t ∈ internals) (hshares : SharesKey config t external) :
    t ∈ out.candidates := by
  have hindexes := indexes_of_build hg
  obtain ⟨a, ha, h⟩ := except_bind_ok h
  obtain ⟨c, hc, h⟩ := except_bind_ok h
  cases h
  have hpool : ∀ x ∈ a ++ g.passB external ++ c, x ∈ internals :=
    fun x hx => ((hindexes.mem_passes ha hc).mp hx).1
  simp only [gt_iff_lt, decide_eq_false_iff_not, Nat.not_lt] at hwhole
  dsimp only
  rw [List.take_of_length_le hwhole,
    mem_distinctById fun x hx y hy hid => eq_of_ids hids (hpool x hx) (hpool y hy) hid]
  exact (hindexes.mem_passes ha hc).mpr ⟨ht, hshares⟩

/-- A list that was not cut off holds the internals that share a key, and nothing else. -/
theorem CandidateGenerator.mem_generate (hids : (ids internals).Nodup)
    (hg : CandidateGenerator.build internals config = .ok g) (h : g.generate external = .ok out)
    (hwhole : out.truncated = false) :
    t ∈ out.candidates ↔ t ∈ internals ∧ SharesKey config t external :=
  ⟨fun ht => generate_shares hg h ht, fun ht => generate_covers hids hg h hwhole ht.1 ht.2⟩

end

/-! ## Blocks -/

/-- The two transactions are in one block of some pass, in terms of their fields. -/
structure SameBlock (config : BlockingConfig) (internal external : NormalisedTransaction) :
    Prop where
  book : SameBook internal external
  block :
    (∃ reference reference', usableReference internal = some reference ∧
        usableReference external = some reference' ∧
        reference.toList.take config.referencePrefixLength =
          reference'.toList.take config.referencePrefixLength) ∨
      (internal.txnDate.fdiv config.dateWindowDays = external.txnDate.fdiv config.dateWindowDays ∧
        (internal.amountMinor.fdiv config.amountBucketWidthMinor =
            external.amountMinor.fdiv config.amountBucketWidthMinor ∨
          ∃ party,
            counterpartyKey internal.counterpartyNameNormalised config.counterpartyPrefixLength =
              some party ∧
            counterpartyKey external.counterpartyNameNormalised config.counterpartyPrefixLength =
              some party))

section

variable {config : BlockingConfig} {internal external t : NormalisedTransaction}

/-- Where an external has candidates at all, both widths are positive. -/
theorem widths_of_amountDateKey {k : AmountDateKey} (h : amountDateKey config t = .ok k) :
    0 < config.amountBucketWidthMinor ∧ 0 < config.dateWindowDays := by
  obtain ⟨amount, ha, h⟩ := except_bind_ok h
  obtain ⟨date, hd, -⟩ := except_bind_ok h
  simp only [amountBucket, dateBucket] at ha hd
  split at ha
  · cases ha
  · split at hd
    · cases hd
    · exact ⟨by omega, by omega⟩

theorem amountDateKey_eq (ha : 0 < config.amountBucketWidthMinor) (hd : 0 < config.dateWindowDays)
    (t : NormalisedTransaction) :
    amountDateKey config t = .ok (t.bankCode, t.currency, t.direction,
      t.amountMinor.fdiv config.amountBucketWidthMinor,
      t.txnDate.fdiv config.dateWindowDays) := by
  simp only [amountDateKey, amountBucket, dateBucket, not_le.mpr ha, not_le.mpr hd, if_false]
  rfl

theorem counterpartyDateKey_eq (hd : 0 < config.dateWindowDays) (t : NormalisedTransaction) :
    counterpartyDateKey config t =
      .ok ((counterpartyKey t.counterpartyNameNormalised config.counterpartyPrefixLength).map
        fun party => (t.bankCode, t.currency, t.direction, party,
          t.txnDate.fdiv config.dateWindowDays)) := by
  unfold counterpartyDateKey
  cases counterpartyKey t.counterpartyNameNormalised config.counterpartyPrefixLength with
  | none => rfl
  | some party =>
    simp only [dateBucket, not_le.mpr hd, if_false]
    rfl

/-- To share a key is to be in one block. -/
theorem sharesKey_iff_sameBlock (ha : 0 < config.amountBucketWidthMinor)
    (hd : 0 < config.dateWindowDays) :
    SharesKey config internal external ↔ SameBlock config internal external := by
  constructor
  · intro h
    refine ⟨h.sameBook, ?_⟩
    simp only [SharesKey, amountDateKey_eq ha hd, counterpartyDateKey_eq hd, Except.ok.injEq,
      Option.map_eq_some_iff] at h
    rcases h with ⟨k, rfl, hk⟩ | ⟨k, hk, hk'⟩ | ⟨k, ⟨party, hparty, rfl⟩, party', hparty', hk⟩
    · simp only [Prod.mk.injEq] at hk
      exact Or.inr ⟨hk.2.2.2.2.symm, Or.inl hk.2.2.2.1.symm⟩
    · obtain ⟨reference, href, hk⟩ := Option.bind_eq_some_iff.mp hk
      obtain ⟨reference', href', hk'⟩ := Option.bind_eq_some_iff.mp hk'
      have heq := Option.some.inj (hk.trans hk'.symm)
      simp only [Prod.mk.injEq] at heq
      exact Or.inl ⟨reference, reference', href, href', heq.2.2.2⟩
    · simp only [Prod.mk.injEq] at hk
      obtain ⟨-, -, -, rfl, hdate⟩ := hk
      exact Or.inr ⟨hdate.symm, Or.inr ⟨party', hparty, hparty'⟩⟩
  · intro h
    simp only [SharesKey, amountDateKey_eq ha hd, counterpartyDateKey_eq hd, Except.ok.injEq,
      Option.map_eq_some_iff]
    obtain ⟨hbank, hcurrency, hdirection⟩ := h.book
    rcases h.block with ⟨reference, reference', href, href', hprefix⟩ | ⟨hdate, hamount | hparty⟩
    · right
      left
      refine ⟨_, congrArg (Option.bind · _) href, ?_⟩
      simp only [referenceKey, href', Option.bind_eq_bind, Option.bind_some, Option.pure_def,
        hbank, hcurrency, hdirection, hprefix]
    · left
      exact ⟨_, rfl, by rw [hbank, hcurrency, hdirection, hamount, hdate]⟩
    · right
      right
      obtain ⟨party, hinternal, hexternal⟩ := hparty
      exact ⟨_, ⟨party, hinternal, rfl⟩, party, hexternal, by
        rw [hbank, hcurrency, hdirection, hdate]⟩

end

/-! ## Automatic matches -/

/-- **What blocking hides.** A list that was not cut off holds every internal that would be matched
automatically exactly when each of them is in a block of the external. -/
theorem generate_holds_autoMatches_iff (text : TextSimilarity) (config : MatchingConfig)
    (tolerance : Int) (blocking : BlockingConfig) (internals : List NormalisedTransaction)
    (external : NormalisedTransaction) (g : CandidateGenerator) (set : CandidateSet)
    (hids : (ids internals).Nodup) (hg : CandidateGenerator.build internals blocking = .ok g)
    (hset : g.generate external = .ok set) (hwhole : set.truncated = false) :
    (∀ internal ∈ internals,
        (scoreCandidate text tolerance config internal external).decision = .autoMatch →
          internal ∈ set.candidates) ↔
      ∀ internal ∈ internals,
        (scoreCandidate text tolerance config internal external).decision = .autoMatch →
          SameBlock blocking internal external := by
  have hconfig := (CandidateGenerator.indexes_of_build hg).settings
  obtain ⟨a, ha, -⟩ := except_bind_ok hset
  obtain ⟨k, hk, -⟩ := except_bind_ok ha
  rw [hconfig] at hk
  obtain ⟨hamount, hdate⟩ := widths_of_amountDateKey hk
  simp only [CandidateGenerator.mem_generate hids hg hset hwhole,
    sharesKey_iff_sameBlock hamount hdate]
  constructor
  · exact fun h internal hin hauto => (h internal hin hauto).2
  · exact fun h internal hin hauto => ⟨hin, h internal hin hauto⟩

/-- What the library answers for two references that differ in their first letter only, where the
other reference has that letter in third place. -/
def nearSimilarity : TextSimilarity where
  jaroWinkler a b := if a = b then 1 else if a = "" then 0 else 181 / 198
  levenshtein a b := if a = b then 0 else 1
  tokenSetRatio := literalSimilarity.tokenSetRatio

theorem nearSimilarity_lawful : nearSimilarity.Lawful where
  jaroWinkler a b := by
    simp only [nearSimilarity]
    split_ifs <;> norm_num
  jaroWinklerEmpty b hb := by
    simp [nearSimilarity, hb.symm]
  tokenSetRatio := literalSimilarity_lawful.tokenSetRatio
  tokenSetRatioSelf := literalSimilarity_lawful.tokenSetRatioSelf
  float := sixteenDigits_lawful

/-- One side of a payment to a named party, with the first letter of its reference in doubt. -/
def misreadSide (id : Id) (source : Source) (reference : String) (day : Date) :
    NormalisedTransaction :=
  { paymentSide id source reference with
    counterpartyNameNormalised := some "ACME TRADERS", txnDate := day }

theorem generate_holds_autoMatches_iff_misread :
    (∀ internal ∈ [misreadSide 1 .internal "A1B2C3D4E5F6" 1],
        (scoreCandidate nearSimilarity 1 shippedMatchingConfig internal
          (misreadSide 2 .external "B1B2C3D4E5F6" 2)).decision = .autoMatch →
          internal ∈ ([] : List NormalisedTransaction)) ↔
      ∀ internal ∈ [misreadSide 1 .internal "A1B2C3D4E5F6" 1],
        (scoreCandidate nearSimilarity 1 shippedMatchingConfig internal
          (misreadSide 2 .external "B1B2C3D4E5F6" 2)).decision = .autoMatch →
          SameBlock shippedBlocking internal (misreadSide 2 .external "B1B2C3D4E5F6" 2) :=
  generate_holds_autoMatches_iff nearSimilarity shippedMatchingConfig 1 shippedBlocking
    [misreadSide 1 .internal "A1B2C3D4E5F6" 1] (misreadSide 2 .external "B1B2C3D4E5F6" 2)
    _ ⟨[], false⟩ (by decide) rfl (by decide +kernel) rfl

/-- Two dates one day apart on two sides of a window boundary hide such a pair. -/
theorem misreadSide_hidden :
    ¬ ∀ (text : TextSimilarity) (tolerance : Int) (internals : List NormalisedTransaction)
      (external : NormalisedTransaction) (g : CandidateGenerator) (set : CandidateSet),
      text.Lawful → (ids internals).Nodup →
      CandidateGenerator.build internals shippedBlocking = .ok g →
      g.generate external = .ok set → set.truncated = false →
      ∀ internal ∈ internals,
        (scoreCandidate text tolerance shippedMatchingConfig internal external).decision =
          .autoMatch → internal ∈ set.candidates := by
  intro hall
  have hmem := hall nearSimilarity 1 [misreadSide 1 .internal "A1B2C3D4E5F6" 1]
    (misreadSide 2 .external "B1B2C3D4E5F6" 2) _ ⟨[], false⟩ nearSimilarity_lawful (by decide) rfl
    (by decide +kernel) rfl _ List.mem_cons_self (by decide +kernel)
  cases hmem

end Recon
