import ReconEngine.Matching.Group

/-!
# Blocking

`CandidateGenerator` narrows the internals down before any text is compared. Three passes, led by
the amount, the reference and the counterparty, each look one key up; their union keeps the first
occurrence of every candidate and is cut off at a configured length.

**The law of what is generated** (`CandidateGenerator.generate_spec`, `generate_shares`): a
candidate is one of the internals, of the bank, the currency and the direction of the external, and
shares a key of some pass with it; no candidate comes twice.

**What it does not establish.** That every internal worth comparing is generated. What the passes
leave out is the subject of `Matching.BlockingCoverage`.
-/

set_option autoImplicit false

namespace Recon

structure BlockingConfig where
  amountBucketWidthMinor : Int
  dateWindowDays : Int
  referencePrefixLength : Nat := 6
  counterpartyPrefixLength : Nat := 8
  maxCandidatesPerTransaction : Nat := 50
deriving DecidableEq, Repr

structure CandidateSet where
  candidates : List NormalisedTransaction
  truncated : Bool
deriving DecidableEq, Repr

def amountBucket (amountMinor bucketWidthMinor : Int) : Except ReconError Int :=
  if bucketWidthMinor ≤ 0 then .error (.valueError "bucket_width_minor must be positive")
  else .ok (amountMinor.fdiv bucketWidthMinor)

def dateBucket (txnDate : Date) (windowDays : Int) : Except ReconError Int :=
  if windowDays ≤ 0 then .error (.valueError "window_days must be positive")
  else .ok (txnDate.fdiv windowDays)

/-- The reference, unless it is missing or empty. -/
def usableReference (t : NormalisedTransaction) : Option String :=
  t.normalisedReference.filter (!·.isEmpty)

abbrev AmountDateKey := String × String × Direction × Int × Int

abbrev ReferenceKey := String × String × Direction × List Char

abbrev CounterpartyDateKey := String × String × Direction × List Char × Int

def amountDateKey (config : BlockingConfig) (t : NormalisedTransaction) :
    Except ReconError AmountDateKey := do
  let amount ← amountBucket t.amountMinor config.amountBucketWidthMinor
  let date ← dateBucket t.txnDate config.dateWindowDays
  return (t.bankCode, t.currency, t.direction, amount, date)

/-- `none` for a transaction without a reference. -/
def referenceKey (config : BlockingConfig) (t : NormalisedTransaction) : Option ReferenceKey := do
  let reference ← usableReference t
  return (t.bankCode, t.currency, t.direction,
    reference.toList.take config.referencePrefixLength)

/-- `none` for a transaction without a counterparty. -/
def counterpartyDateKey (config : BlockingConfig) (t : NormalisedTransaction) :
    Except ReconError (Option CounterpartyDateKey) :=
  match counterpartyKey t.counterpartyNameNormalised config.counterpartyPrefixLength with
  | none => .ok none
  | some party => do
    let date ← dateBucket t.txnDate config.dateWindowDays
    return some (t.bankCode, t.currency, t.direction, party, date)

/-- The three dictionaries, as their entries in insertion order. -/
structure CandidateGenerator where
  config : BlockingConfig
  byAmountBucket : List (AmountDateKey × NormalisedTransaction)
  byReferencePrefix : List (ReferenceKey × NormalisedTransaction)
  byCounterparty : List (CounterpartyDateKey × NormalisedTransaction)

/-- An index by an optional, fallible key. -/
def indexBy {κ : Type} (key : NormalisedTransaction → Except ReconError (Option κ)) :
    List NormalisedTransaction → Except ReconError (List (κ × NormalisedTransaction))
  | [] => .ok []
  | t :: ts => do
    let k ← key t
    let rest ← indexBy key ts
    return (k.map (·, t)).toList ++ rest

/-- `CandidateGenerator.__init__`. -/
def CandidateGenerator.build (internals : List NormalisedTransaction) (config : BlockingConfig) :
    Except ReconError CandidateGenerator := do
  let byAmountBucket ← indexBy (fun t => do return some (← amountDateKey config t)) internals
  let byReferencePrefix ← indexBy (fun t => .ok (referenceKey config t)) internals
  let byCounterparty ← indexBy (counterpartyDateKey config) internals
  return { config := config, byAmountBucket := byAmountBucket,
           byReferencePrefix := byReferencePrefix, byCounterparty := byCounterparty }

/-- `index.get(key, [])`. -/
def bucketOf {κ : Type} [DecidableEq κ] (index : List (κ × NormalisedTransaction)) (key : κ) :
    List NormalisedTransaction :=
  (index.filter (·.1 = key)).map (·.2)

/-- One more candidate, unless it has been seen. -/
def addCandidate (seen : List NormalisedTransaction) (t : NormalisedTransaction) :
    List NormalisedTransaction :=
  if t.id ∈ ids seen then seen else seen ++ [t]

/-- The first occurrence of every identifier. -/
def distinctById (ts : List NormalisedTransaction) : List NormalisedTransaction :=
  ts.foldl addCandidate []

namespace CandidateGenerator

def passA (g : CandidateGenerator) (external : NormalisedTransaction) :
    Except ReconError (List NormalisedTransaction) := do
  let key ← amountDateKey g.config external
  return bucketOf g.byAmountBucket key

def passB (g : CandidateGenerator) (external : NormalisedTransaction) :
    List NormalisedTransaction :=
  match referenceKey g.config external with
  | none => []
  | some key => bucketOf g.byReferencePrefix key

def passC (g : CandidateGenerator) (external : NormalisedTransaction) :
    Except ReconError (List NormalisedTransaction) := do
  match ← counterpartyDateKey g.config external with
  | none => return []
  | some key => return bucketOf g.byCounterparty key

def generate (g : CandidateGenerator) (external : NormalisedTransaction) :
    Except ReconError CandidateSet := do
  let a ← g.passA external
  let c ← g.passC external
  let combined := distinctById (a ++ g.passB external ++ c)
  return { candidates := combined.take g.config.maxCandidatesPerTransaction
           truncated := decide (combined.length > g.config.maxCandidatesPerTransaction) }

end CandidateGenerator

/-! ## What is generated -/

/-- An index has entries of its rows only, each under its key. -/
theorem mem_indexBy {κ : Type} {key : NormalisedTransaction → Except ReconError (Option κ)}
    {k : κ} {t : NormalisedTransaction} :
    ∀ {ts : List NormalisedTransaction} {index : List (κ × NormalisedTransaction)},
      indexBy key ts = .ok index → (k, t) ∈ index → t ∈ ts ∧ key t = .ok (some k)
  | [], index, h, hmem => by
    cases h
    cases hmem
  | t' :: ts, index, h, hmem => by
    obtain ⟨k', hk', h⟩ := except_bind_ok h
    obtain ⟨rest, hrest, h⟩ := except_bind_ok h
    cases h
    rcases List.mem_append.mp hmem with hmem | hmem
    · obtain ⟨k'', rfl, heq⟩ := Option.map_eq_some_iff.mp (Option.mem_toList.mp hmem)
      cases heq
      exact ⟨List.mem_cons_self, hk'⟩
    · obtain ⟨ht, hkey⟩ := mem_indexBy hrest hmem
      exact ⟨List.mem_cons_of_mem t' ht, hkey⟩

/-- A bucket has the rows under one key. -/
theorem mem_bucketOf {κ : Type} [DecidableEq κ] {index : List (κ × NormalisedTransaction)} {key : κ}
    {t : NormalisedTransaction} : t ∈ bucketOf index key ↔ (key, t) ∈ index := by
  simp only [bucketOf, List.mem_map, List.mem_filter, decide_eq_true_eq]
  constructor
  · rintro ⟨⟨k, t'⟩, ⟨hmem, rfl⟩, rfl⟩
    exact hmem
  · exact fun hmem => ⟨(key, t), ⟨hmem, rfl⟩, rfl⟩

/-- A candidate that is there is not added again. -/
theorem addCandidate_nodup {seen : List NormalisedTransaction} (t : NormalisedTransaction)
    (h : (ids seen).Nodup) : (ids (addCandidate seen t)).Nodup := by
  unfold addCandidate
  split
  · exact h
  · rename_i hnew
    rw [ids, List.map_append, List.map_singleton]
    refine List.nodup_append.mpr ⟨h, List.nodup_singleton _, ?_⟩
    rintro a ha b hb rfl
    exact hnew (List.mem_singleton.mp hb ▸ ha)

theorem mem_addCandidate {seen : List NormalisedTransaction} {t t' : NormalisedTransaction}
    (h : t' ∈ addCandidate seen t) : t' ∈ seen ∨ t' = t := by
  unfold addCandidate at h
  split at h
  · exact Or.inl h
  · exact (List.mem_append.mp h).imp_right List.mem_singleton.mp

/-- The union names no candidate twice and invents none. -/
theorem distinctById_spec (ts : List NormalisedTransaction) :
    (ids (distinctById ts)).Nodup ∧ ∀ t ∈ distinctById ts, t ∈ ts := by
  have hloop : ∀ (rest seen : List NormalisedTransaction), (ids seen).Nodup →
      (ids (rest.foldl addCandidate seen)).Nodup ∧
        ∀ t ∈ rest.foldl addCandidate seen, t ∈ seen ∨ t ∈ rest := by
    intro rest
    induction rest with
    | nil => exact fun seen hnodup => ⟨hnodup, fun t ht => Or.inl ht⟩
    | cons t rest ih =>
      intro seen hnodup
      obtain ⟨hout, hmem⟩ := ih (addCandidate seen t) (addCandidate_nodup t hnodup)
      refine ⟨hout, fun t' ht' => ?_⟩
      rcases hmem t' ht' with h | h
      · rcases mem_addCandidate h with h | rfl
        · exact Or.inl h
        · exact Or.inr List.mem_cons_self
      · exact Or.inr (List.mem_cons_of_mem t h)
  obtain ⟨hnodup, hmem⟩ := hloop ts [] List.nodup_nil
  exact ⟨hnodup, fun t ht => (hmem t ht).resolve_left List.not_mem_nil⟩

/-- The two transactions are in the same bank, currency and direction. -/
def SameBook (t t' : NormalisedTransaction) : Prop :=
  t.bankCode = t'.bankCode ∧ t.currency = t'.currency ∧ t.direction = t'.direction

section

variable {config : BlockingConfig} {t t' : NormalisedTransaction}

theorem sameBook_of_amountDateKey {k : AmountDateKey} (h : amountDateKey config t = .ok k)
    (h' : amountDateKey config t' = .ok k) : SameBook t t' := by
  obtain ⟨amount, -, h⟩ := except_bind_ok h
  obtain ⟨date, -, h⟩ := except_bind_ok h
  obtain ⟨amount', -, h'⟩ := except_bind_ok h'
  obtain ⟨date', -, h'⟩ := except_bind_ok h'
  have heq := Except.ok.inj (h.trans h'.symm)
  simp only [Prod.mk.injEq] at heq
  exact ⟨heq.1, heq.2.1, heq.2.2.1⟩

theorem sameBook_of_referenceKey {k : ReferenceKey} (h : referenceKey config t = some k)
    (h' : referenceKey config t' = some k) : SameBook t t' := by
  obtain ⟨reference, -, h⟩ := Option.bind_eq_some_iff.mp h
  obtain ⟨reference', -, h'⟩ := Option.bind_eq_some_iff.mp h'
  have heq := Option.some.inj (h.trans h'.symm)
  simp only [Prod.mk.injEq] at heq
  exact ⟨heq.1, heq.2.1, heq.2.2.1⟩

theorem sameBook_of_counterpartyDateKey {k : CounterpartyDateKey}
    (h : counterpartyDateKey config t = .ok (some k))
    (h' : counterpartyDateKey config t' = .ok (some k)) : SameBook t t' := by
  unfold counterpartyDateKey at h h'
  split at h
  · cases h
  · split at h'
    · cases h'
    · obtain ⟨date, -, h⟩ := except_bind_ok h
      obtain ⟨date', -, h'⟩ := except_bind_ok h'
      have heq := Option.some.inj (Except.ok.inj (h.trans h'.symm))
      simp only [Prod.mk.injEq] at heq
      exact ⟨heq.1, heq.2.1, heq.2.2.1⟩

end

/-- The two transactions have a key of some pass in common. -/
def SharesKey (config : BlockingConfig) (t t' : NormalisedTransaction) : Prop :=
  (∃ k, amountDateKey config t = .ok k ∧ amountDateKey config t' = .ok k) ∨
    (∃ k, referenceKey config t = some k ∧ referenceKey config t' = some k) ∨
      ∃ k, counterpartyDateKey config t = .ok (some k) ∧ counterpartyDateKey config t' = .ok (some k)

/-- Blocking lets the two transactions meet, when nothing else competes. -/
structure Meets (config : BlockingConfig) (internal external : NormalisedTransaction) : Prop where
  amountWidth : 0 < config.amountBucketWidthMinor
  dateWindow : 0 < config.dateWindowDays
  capacity : 0 < config.maxCandidatesPerTransaction
  key : SharesKey config internal external

/-- Rows that share a key have one bank, one currency and one direction. -/
theorem SharesKey.sameBook {config : BlockingConfig} {t t' : NormalisedTransaction}
    (h : SharesKey config t t') : SameBook t t' := by
  rcases h with ⟨k, hk, hk'⟩ | ⟨k, hk, hk'⟩ | ⟨k, hk, hk'⟩
  · exact sameBook_of_amountDateKey hk hk'
  · exact sameBook_of_referenceKey hk hk'
  · exact sameBook_of_counterpartyDateKey hk hk'

/-- A candidate is one of the internals, and shares a key with the external. -/
theorem CandidateGenerator.generate_shares {internals : List NormalisedTransaction}
    {config : BlockingConfig} {g : CandidateGenerator} {external t : NormalisedTransaction}
    {out : CandidateSet} (hg : CandidateGenerator.build internals config = .ok g)
    (h : g.generate external = .ok out) (ht : t ∈ out.candidates) :
    t ∈ internals ∧ SharesKey config t external := by
  obtain ⟨byAmount, hAmount, hg⟩ := except_bind_ok hg
  obtain ⟨byReference, hReference, hg⟩ := except_bind_ok hg
  obtain ⟨byCounterparty, hCounterparty, hg⟩ := except_bind_ok hg
  cases hg
  obtain ⟨a, ha, h⟩ := except_bind_ok h
  obtain ⟨c, hc, h⟩ := except_bind_ok h
  cases h
  have hmem := (distinctById_spec (a ++ passB _ external ++ c)).2 t (List.mem_of_mem_take ht)
  rcases List.mem_append.mp hmem with ht | ht
  · rcases List.mem_append.mp ht with ht | ht
    · -- Led by the amount.
      obtain ⟨key, hkey, ha⟩ := except_bind_ok ha
      cases ha
      obtain ⟨hin, ht⟩ := mem_indexBy hAmount (mem_bucketOf.mp ht)
      obtain ⟨key', hkey', heq⟩ := except_bind_ok ht
      cases heq
      exact ⟨hin, Or.inl ⟨_, hkey', hkey⟩⟩
    · -- Led by the reference.
      unfold passB at ht
      split at ht
      · cases ht
      · rename_i key hkey
        obtain ⟨hin, ht⟩ := mem_indexBy hReference (mem_bucketOf.mp ht)
        exact ⟨hin, Or.inr (Or.inl ⟨_, Except.ok.inj ht, hkey⟩)⟩
  · -- Led by the counterparty.
    obtain ⟨key, hkey, hc⟩ := except_bind_ok hc
    cases key with
    | none =>
      cases hc
      cases ht
    | some key =>
      cases hc
      obtain ⟨hin, ht⟩ := mem_indexBy hCounterparty (mem_bucketOf.mp ht)
      exact ⟨hin, Or.inr (Or.inr ⟨_, ht, hkey⟩)⟩

/-- Every candidate is one of the internals, of the external's bank, currency and direction, and
no two candidates are one transaction. -/
theorem CandidateGenerator.generate_spec {internals : List NormalisedTransaction}
    {config : BlockingConfig} {g : CandidateGenerator} {external : NormalisedTransaction}
    {out : CandidateSet} (hg : CandidateGenerator.build internals config = .ok g)
    (h : g.generate external = .ok out) :
    (ids out.candidates).Nodup ∧ ∀ t ∈ out.candidates, t ∈ internals ∧ SameBook t external := by
  constructor
  · obtain ⟨a, -, h⟩ := except_bind_ok h
    obtain ⟨c, -, h⟩ := except_bind_ok h
    cases h
    have hnodup := (distinctById_spec (a ++ g.passB external ++ c)).1
    exact hnodup.sublist ((List.take_sublist _ _).map _)
  · intro t ht
    obtain ⟨hin, hshares⟩ := generate_shares hg h ht
    exact ⟨hin, hshares.sameBook⟩

/-! ## A pair alone -/

section

variable {config : BlockingConfig} {t : NormalisedTransaction}

/-- Every row has a key of amount and date, where the widths are positive. -/
theorem amountDateKey_ok (ha : 0 < config.amountBucketWidthMinor) (hd : 0 < config.dateWindowDays)
    (t : NormalisedTransaction) : ∃ k, amountDateKey config t = .ok k := by
  simp only [amountDateKey, amountBucket, dateBucket, not_le.mpr ha, not_le.mpr hd, if_false]
  exact ⟨_, rfl⟩

theorem counterpartyDateKey_ok (hd : 0 < config.dateWindowDays) (t : NormalisedTransaction) :
    ∃ k, counterpartyDateKey config t = .ok k := by
  unfold counterpartyDateKey
  split
  · exact ⟨_, rfl⟩
  · simp only [dateBucket, not_le.mpr hd, if_false]
    exact ⟨_, rfl⟩

theorem indexBy_singleton {κ : Type} {key : NormalisedTransaction → Except ReconError (Option κ)}
    {k : Option κ} (h : key t = .ok k) : indexBy key [t] = .ok (k.map (·, t)).toList := by
  simp only [indexBy, h]
  exact congrArg Except.ok (List.append_nil _)

/-- The index of a valid configuration and any internals can be built. -/
theorem CandidateGenerator.widths_of_build {internals : List NormalisedTransaction}
    {g : CandidateGenerator} (hg : CandidateGenerator.build internals config = .ok g)
    (ht : t ∈ internals) : 0 < config.amountBucketWidthMinor ∧ 0 < config.dateWindowDays := by
  obtain ⟨byAmount, hAmount, -⟩ := except_bind_ok hg
  have hkey : ∀ {ts : List NormalisedTransaction} {index},
      indexBy (fun t => do return some (← amountDateKey config t)) ts = .ok index →
      t ∈ ts → ∃ k, amountDateKey config t = .ok k := by
    intro ts
    induction ts with
    | nil => intro _ _ hmem; cases hmem
    | cons t' ts ih =>
      intro index h hmem
      obtain ⟨k, hk, h⟩ := except_bind_ok h
      obtain ⟨rest, hrest, -⟩ := except_bind_ok h
      rcases List.mem_cons.mp hmem with rfl | hmem
      · obtain ⟨k', hk', -⟩ := except_bind_ok hk
        exact ⟨k', hk'⟩
      · exact ih hrest hmem
  obtain ⟨k, hk⟩ := hkey hAmount ht
  obtain ⟨amount, ha, hk⟩ := except_bind_ok hk
  obtain ⟨date, hd, -⟩ := except_bind_ok hk
  simp only [amountBucket, dateBucket] at ha hd
  split at ha
  · cases ha
  · split at hd
    · cases hd
    · exact ⟨by omega, by omega⟩

/-- Where there is a candidate, candidates are allowed. -/
theorem CandidateGenerator.capacity_of_mem {internals : List NormalisedTransaction}
    {g : CandidateGenerator} {external : NormalisedTransaction} {out : CandidateSet}
    (hg : CandidateGenerator.build internals config = .ok g) (h : g.generate external = .ok out)
    (ht : t ∈ out.candidates) : 0 < config.maxCandidatesPerTransaction := by
  obtain ⟨byAmount, -, hg⟩ := except_bind_ok hg
  obtain ⟨byReference, -, hg⟩ := except_bind_ok hg
  obtain ⟨byCounterparty, -, hg⟩ := except_bind_ok hg
  cases hg
  obtain ⟨a, -, h⟩ := except_bind_ok h
  obtain ⟨c, -, h⟩ := except_bind_ok h
  cases h
  refine Nat.pos_of_ne_zero fun hzero => ?_
  dsimp only at ht
  rw [hzero, List.take_zero] at ht
  cases ht

/-- The union of passes that can only name one transaction, and do. -/
theorem distinctById_single {ts : List NormalisedTransaction} (hmem : t ∈ ts)
    (hall : ∀ x ∈ ts, x = t) : distinctById ts = [t] := by
  have hloop : ∀ rest : List NormalisedTransaction, (∀ x ∈ rest, x = t) →
      rest.foldl addCandidate [t] = [t] := by
    intro rest
    induction rest with
    | nil => exact fun _ => rfl
    | cons x rest ih =>
      intro h
      have hx : addCandidate [t] x = [t] := by
        rw [h x List.mem_cons_self, addCandidate, if_pos (by simp [ids])]
      rw [List.foldl_cons, hx]
      exact ih fun y hy => h y (List.mem_cons_of_mem x hy)
  cases ts with
  | nil => cases hmem
  | cons x rest =>
    rw [distinctById, List.foldl_cons, hall x List.mem_cons_self]
    exact hloop rest fun y hy => hall y (List.mem_cons_of_mem x hy)

/-- An index of one transaction holds it under its key. -/
theorem bucketOf_toList {κ : Type} [DecidableEq κ] {k : Option κ} {key : κ}
    {x : NormalisedTransaction} :
    x ∈ bucketOf (k.map (·, t)).toList key ↔ x = t ∧ k = some key := by
  rw [mem_bucketOf, Option.mem_toList, Option.map_eq_some_iff]
  constructor
  · rintro ⟨k', rfl, heq⟩
    cases heq
    exact ⟨rfl, rfl⟩
  · rintro ⟨rfl, rfl⟩
    exact ⟨key, rfl, rfl⟩

/-- Two transactions that meet are each other's only candidate when they are alone. -/
theorem CandidateGenerator.generate_alone {external : NormalisedTransaction}
    (h : Meets config t external) :
    ∃ g set, CandidateGenerator.build [t] config = .ok g ∧ g.generate external = .ok set ∧
      set.candidates = [t] := by
  obtain ⟨ka, hka⟩ := amountDateKey_ok h.amountWidth h.dateWindow t
  obtain ⟨kc, hkc⟩ := counterpartyDateKey_ok h.dateWindow t
  obtain ⟨ea, hea⟩ := amountDateKey_ok h.amountWidth h.dateWindow external
  obtain ⟨ec, hec⟩ := counterpartyDateKey_ok h.dateWindow external
  have hg : CandidateGenerator.build [t] config = .ok
      { config := config, byAmountBucket := ((some ka).map (·, t)).toList,
        byReferencePrefix := ((referenceKey config t).map (·, t)).toList,
        byCounterparty := (kc.map (·, t)).toList } := by
    simp only [build]
    rw [indexBy_singleton (k := some ka) (by rw [hka]; rfl), indexBy_singleton rfl,
      indexBy_singleton hkc]
    rfl
  let b := passB
    { config := config, byAmountBucket := ((some ka).map (·, t)).toList,
      byReferencePrefix := ((referenceKey config t).map (·, t)).toList,
      byCounterparty := (kc.map (·, t)).toList } external
  let c := match ec with
    | none => []
    | some key => bucketOf (kc.map (·, t)).toList key
  have hb : ∀ x, x ∈ b ↔ x = t ∧ ∃ k, referenceKey config t = some k ∧
      referenceKey config external = some k := by
    intro x
    show x ∈ (match referenceKey config external with
      | none => []
      | some key => bucketOf ((referenceKey config t).map (·, t)).toList key) ↔ _
    cases hr : referenceKey config external with
    | none => simp
    | some key =>
      rw [bucketOf_toList]
      exact and_congr_right fun _ => ⟨fun h => ⟨key, h, rfl⟩, fun ⟨k, hk, heq⟩ => by
        rw [hk, Option.some.inj heq]⟩
  have hc : ∀ x, x ∈ c ↔ x = t ∧ ∃ k, kc = some k ∧ ec = some k := by
    intro x
    show x ∈ (match ec with
      | none => []
      | some key => bucketOf (kc.map (·, t)).toList key) ↔ _
    cases ec with
    | none => simp
    | some key =>
      dsimp only
      rw [bucketOf_toList]
      exact and_congr_right fun _ => ⟨fun h => ⟨key, h, rfl⟩, fun ⟨k, hk, heq⟩ => by
        rw [hk, Option.some.inj heq]⟩
  have hset : generate
      { config := config, byAmountBucket := ((some ka).map (·, t)).toList,
        byReferencePrefix := ((referenceKey config t).map (·, t)).toList,
        byCounterparty := (kc.map (·, t)).toList } external =
      .ok { candidates := (distinctById (bucketOf ((some ka).map (·, t)).toList ea ++ b ++ c)).take
              config.maxCandidatesPerTransaction
            truncated := decide ((distinctById (bucketOf ((some ka).map (·, t)).toList ea ++ b ++
              c)).length > config.maxCandidatesPerTransaction) } := by
    simp only [generate, passA, passC, hea, hec]
    cases ec <;> rfl
  refine ⟨_, _, hg, hset, ?_⟩
  have hone : distinctById (bucketOf ((some ka).map (·, t)).toList ea ++ b ++ c) = [t] := by
    refine distinctById_single ?_ ?_
    · rcases h.key with ⟨k, hk, hk'⟩ | hk | ⟨k, hk, hk'⟩
      · have hsame : ka = ea := (Except.ok.inj (hka.symm.trans hk)).trans
          (Except.ok.inj (hk'.symm.trans hea))
        exact List.mem_append_left _ (List.mem_append_left _
          (bucketOf_toList.mpr ⟨rfl, congrArg some hsame⟩))
      · exact List.mem_append_left _ (List.mem_append_right _ ((hb t).mpr ⟨rfl, hk⟩))
      · exact List.mem_append_right _ ((hc t).mpr ⟨rfl, k, Except.ok.inj (hkc.symm.trans hk),
          Except.ok.inj (hec.symm.trans hk')⟩)
    · intro x hx
      rcases List.mem_append.mp hx with hx | hx
      · rcases List.mem_append.mp hx with hx | hx
        · exact (bucketOf_toList.mp hx).1
        · exact ((hb x).mp hx).1
      · exact ((hc x).mp hx).1
  have hcap : config.maxCandidatesPerTransaction = config.maxCandidatesPerTransaction - 1 + 1 := by
    have := h.capacity
    omega
  dsimp only
  rw [hone, hcap, List.take_succ_cons, List.take_nil]

end

end Recon
