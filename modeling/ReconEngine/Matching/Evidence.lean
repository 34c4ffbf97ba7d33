import ReconEngine.Matching.Constraints
import ReconEngine.Matching.ExactSetBased
import ReconEngine.Ingestion.Normalise

/-!
# Missing references

A reference that says nothing cleans to the empty text, and three places meet such rows. The exact
key refuses them, the reference pass of blocking skips them, and the score compares them like any
other text: two missing references are equal and score full marks.

What a pair of either stage rests on is therefore not always evidence. The theorem of this module
says for which pairs it is.

**The law** (`autoMatched_restsOnEvidence_iff`): an automatic match of any of the stages rests on
evidence exactly when no missing reference scores in it, or its other fields suffice
(`EvidenceRule`).

**What it does not establish.** That evidence is right: two payments may share a reference by
mistake.
-/

set_option autoImplicit false

namespace Recon

open Store (mem_chunksOf)
open Store.Prog hiding pure bind

/-! ## References -/

/-- The reference is there and not blank, as `build_key` asks of it. -/
def HasReference (t : NormalisedTransaction) : Prop :=
  ∃ reference, t.normalisedReference = some reference ∧
    reference.toList.all pythonBlank = false

/-- The reference is one that `clean_reference` may have left: it is not made of blanks alone. -/
def CleanedReference (t : NormalisedTransaction) : Prop :=
  ∀ reference, t.normalisedReference = some reference →
    reference.toList.all pythonBlank = true → reference = ""

theorem pythonBlank_toUpper {c : Char} (h : pythonBlank c.toUpper = true) :
    pythonBlank c = true := by
  by_cases hlower : 'a'.val ≤ c.val ∧ c.val ≤ 'z'.val
  · -- A small letter becomes a capital, which is no blank.
    exfalso
    have hlow : 97 ≤ c.val.toNat := hlower.1
    have hhigh : c.val.toNat ≤ 122 := hlower.2
    have hval : c.toUpper.toNat = c.val.toNat - 32 := by
      have hupper : c.toUpper = ⟨c.val + ('A'.val - 'a'.val), _⟩ := dif_pos hlower
      rw [hupper, Char.toNat, UInt32.toNat_add]
      have : ('A'.val - 'a'.val).toNat = 4294967264 := by decide
      omega
    simp only [pythonBlank, List.contains_eq_mem, decide_eq_true_eq, List.mem_cons,
      List.not_mem_nil, or_false] at h
    omega
  · have hsame : c.toUpper = c := dif_neg hlower
    rwa [hsame] at h

/-- Upper case makes no blank out of anything else. -/
structure KeepsText (upper : String → String) : Prop where
  empty : upper "" = ""
  blank : ∀ text : String, (upper text).toList.all pythonBlank = true →
    text.toList.all pythonBlank = true

theorem keepsText_toUpper : KeepsText String.toUpper where
  empty := by decide +kernel
  blank text h := by
    have hmap : text.toUpper.toList = text.toList.map Char.toUpper := String.toList_map
    rw [hmap, List.all_map] at h
    exact List.all_eq_true.mpr fun c hc => pythonBlank_toUpper (List.all_eq_true.mp h c hc)

/-- What replacing leaves is of the text or of the replacement. -/
theorem mem_replaceFrom {old new : List Char} {c : Char} :
    ∀ (found : Nat) (text : List Char), c ∈ replaceFrom old new found text → c ∈ new ∨ c ∈ text
  | found, [], h => by
    rw [replaceFrom] at h
    exact absurd h List.not_mem_nil
  | found + 1, x :: text, h =>
    (mem_replaceFrom found text h).imp_right (List.mem_cons_of_mem x)
  | 0, x :: text, h => by
    rw [replaceFrom] at h
    split at h
    · rcases List.mem_append.mp h with hnew | hrest
      · exact Or.inl hnew
      · exact (mem_replaceFrom _ text hrest).imp_right (List.mem_cons_of_mem x)
    · rcases List.mem_cons.mp h with rfl | hrest
      · exact Or.inr List.mem_cons_self
      · exact (mem_replaceFrom _ text hrest).imp_right (List.mem_cons_of_mem x)

/-- Replacing brings in the characters of the new text only. -/
theorem mem_replaceText {text old new : String} (hold : old.toList ≠ []) {c : Char}
    (h : c ∈ (replaceText text old new).toList) : c ∈ new.toList ∨ c ∈ text.toList := by
  rw [replaceText, String.toList_ofList, if_neg hold] at h
  exact mem_replaceFrom 0 text.toList h

theorem doubleSlash_ne_nil : doubleSlash.toList ≠ [] := by
  have htext : doubleSlash.toList = '\x00' :: "DOUBLESLASH".toList ++ ['\x00'] := by
    unfold doubleSlash
    exact String.toList_ofList
  rw [ne_eq, htext]
  exact List.append_ne_nil_of_right_ne_nil _ (List.cons_ne_nil _ _)

/-- What is left of a reference before its letters change. -/
theorem cleanReference_eq (lib : TextLibrary) (raw : String) : ∃ kept : String,
    (∀ c ∈ kept.toList, c = '/' ∨ isFormatting c = false) ∧
      cleanReference lib raw = lib.upper kept := by
  unfold cleanReference
  refine ⟨_, ?_, Eq.refl _⟩
  intro c hc
  rcases mem_replaceText doubleSlash_ne_nil hc with hnew | hkept
  · exact Or.inl (by simpa using hnew)
  · rw [String.toList_ofList] at hkept
    exact Or.inr (by simpa using (List.mem_filter.mp hkept).2)

/-- Cleaning leaves no blank in a reference. -/
theorem cleanReference_blank {lib : TextLibrary} (hupper : KeepsText lib.upper) (raw : String)
    (h : (cleanReference lib raw).toList.all pythonBlank = true) : cleanReference lib raw = "" := by
  obtain ⟨kept, hkept, heq⟩ := cleanReference_eq lib raw
  rw [heq] at h ⊢
  have hblank := hupper.blank _ h
  -- What is left before the letters change is slashes and characters that are no formatting.
  have hnone : kept.toList = [] := by
    rw [List.eq_nil_iff_forall_not_mem]
    intro c hc
    have hc' := List.all_eq_true.mp hblank c hc
    rcases hkept c hc with rfl | hformatting
    · exact absurd hc' (by decide)
    · simp [isFormatting, hc'] at hformatting
  rw [String.toList_eq_nil_iff.mp hnone]
  exact hupper.empty

/-- A reference that was cleaned is one that may be there. -/
theorem cleanedReference_of_clean {lib : TextLibrary} (hupper : KeepsText lib.upper)
    {t : NormalisedTransaction} {raw : String}
    (h : t.normalisedReference = some (cleanReference lib raw)) : CleanedReference t := by
  intro reference href hblank
  obtain rfl : cleanReference lib raw = reference := Option.some.inj (h.symm.trans href)
  exact cleanReference_blank hupper raw hblank

/-- A row with an exact key has a reference. -/
theorem hasReference_of_key {t : NormalisedTransaction} {key : ExactMatchKey}
    (h : buildKey t = some key) : HasReference t := by
  obtain ⟨reference, href, h⟩ := Option.bind_eq_some_iff.mp h
  refine ⟨reference, href, ?_⟩
  by_contra hblank
  rw [if_pos (by simpa using hblank)] at h
  cases h

/-- A cleaned reference that is not there is scored as the empty text. -/
theorem CleanedReference.missing {t : NormalisedTransaction} (hclean : CleanedReference t)
    (h : ¬ HasReference t) : t.normalisedReference.getD "" = "" := by
  cases href : t.normalisedReference with
  | none => rfl
  | some reference =>
    apply hclean reference href
    by_contra hblank
    exact h ⟨reference, href, by simpa using hblank⟩

theorem HasReference.ne_empty {t : NormalisedTransaction} (h : HasReference t) :
    t.normalisedReference.getD "" ≠ "" := by
  obtain ⟨reference, href, hblank⟩ := h
  rw [href]
  rintro (rfl : reference = "")
  simp at hblank

/-- What the text similarity library answers for the empty text. -/
structure TextSimilarity.EmptyText (text : TextSimilarity) : Prop where
  jaroWinklerLeft : ∀ other, other ≠ "" → text.jaroWinkler "" other = 0
  jaroWinklerRight : ∀ other, other ≠ "" → text.jaroWinkler other "" = 0
  levenshtein : ∀ other, text.levenshtein other "" = other.length

/-! ## What a pair rests on -/

section

variable (text : TextSimilarity) (config : MatchingConfig) (tolerance : Int)
  (internal external : NormalisedTransaction)

/-- The five other fields carry the pair above the automatic threshold by themselves. -/
def OthersSuffice : Prop :=
  config.thresholds.autoMatchConfidence <
    (({ fieldScores text tolerance config internal external with reference := 0 } :
      FieldScores).confidence config.weights : Rat) / 1000

/-- The pair does not rest on a missing reference. -/
def RestsOnEvidence : Prop :=
  (HasReference internal ∧ HasReference external) ∨
    OthersSuffice text config tolerance internal external

/-- A missing reference scores: against another one, or on the external side against an internal
reference that is as short as the accepted edit distance. -/
def MissingReferenceScores : Prop :=
  (¬ HasReference internal ∧ ¬ HasReference external) ∨
    (HasReference internal ∧ ¬ HasReference external ∧
      config.thresholds.referenceLevenshteinMinLength ≤
        (internal.normalisedReference.getD "").length ∧
      (internal.normalisedReference.getD "").length ≤
        config.thresholds.referenceLevenshteinMaxDistance)

end

section

variable {text : TextSimilarity} {config : MatchingConfig} {tolerance : Int}
  {internal external : NormalisedTransaction}

/-- Otherwise a pair with a missing reference scores nothing for it. -/
theorem scoreReference_missing (htext : text.EmptyText) (hc : config.Accepted text.float)
    (hi : CleanedReference internal) (he : CleanedReference external)
    (hmissing : ¬ (HasReference internal ∧ HasReference external))
    (h : ¬ MissingReferenceScores config internal external) :
    scoreReference text config.thresholds (internal.normalisedReference.getD "")
      (external.normalisedReference.getD "") = 0 := by
  have hthreshold : 0 ≤ config.thresholds.referenceJaroWinkler :=
    (hc.thresholds _ List.mem_cons_self).1
  by_cases hin : HasReference internal
  · have hex : ¬ HasReference external := fun hex => hmissing ⟨hin, hex⟩
    have hne := hin.ne_empty
    rw [he.missing hex]
    have hshort : ¬ (config.thresholds.referenceLevenshteinMinLength ≤
        (internal.normalisedReference.getD "").length ∧
        (internal.normalisedReference.getD "").length ≤
          config.thresholds.referenceLevenshteinMaxDistance) :=
      fun hlen => h (Or.inr ⟨hin, hex, hlen⟩)
    simp only [scoreReference, hne, if_false, htext.jaroWinklerRight _ hne, htext.levenshtein,
      not_lt.mpr hthreshold, ge_iff_le, hshort]
  · have hex : HasReference external := by
      by_contra hex
      exact h (Or.inl ⟨hin, hex⟩)
    have hne := hex.ne_empty
    have hmin : ¬ config.thresholds.referenceLevenshteinMinLength ≤ 0 := by
      have := hc.minLength
      omega
    rw [hi.missing hin]
    simp only [scoreReference, hne.symm, if_false, htext.jaroWinklerLeft _ hne, ge_iff_le,
      gt_iff_lt, not_lt.mpr hthreshold, String.length_empty, hmin, false_and]

/-- A pair in the automatic band rests on evidence exactly when no missing reference scores, or
the other fields suffice. -/
theorem restsOnEvidence_iff (htext : text.EmptyText) (hc : config.Accepted text.float)
    (hi : CleanedReference internal) (he : CleanedReference external)
    (hband : InAutoBand text config tolerance internal external) :
    RestsOnEvidence text config tolerance internal external ↔
      (MissingReferenceScores config internal external →
        OthersSuffice text config tolerance internal external) := by
  constructor
  · rintro (⟨hin, hex⟩ | hothers) hscores
    · obtain ⟨hnone, -⟩ | ⟨-, hnone, -⟩ := hscores
      · exact absurd hin hnone
      · exact absurd hex hnone
    · exact hothers
  · intro h
    by_cases hboth : HasReference internal ∧ HasReference external
    · exact Or.inl hboth
    · right
      by_cases hscores : MissingReferenceScores config internal external
      · exact h hscores
      · -- The reference contributed nothing, so the confidence is that of the other fields.
        have hzero : (fieldScores text tolerance config internal external).reference = 0 :=
          scoreReference_missing htext hc hi he hboth hscores
        have hsame : ({ fieldScores text tolerance config internal external with
            reference := 0 } : FieldScores) = fieldScores text tolerance config internal external :=
          hzero ▸ rfl
        rw [OthersSuffice, hsame]
        exact hband.1

end

/-! ## The stages -/

/-- `P` holds of every pair of the pools that the row matches automatically. -/
def OnAutoMatched (P : NormalisedTransaction → NormalisedTransaction → Prop)
    (internals externals : List NormalisedTransaction) : RowWrite → Prop
  | .insertResult r => r.status = .autoMatched → ∀ internal ∈ internals, ∀ external ∈ externals,
      internal.id = r.internalTransactionId → external.id = r.externalTransactionId →
        P internal external
  | _ => True

/-- Rows of one identifier are one row. -/
theorem eq_of_ids {ts : List NormalisedTransaction} (h : (ids ts).Nodup)
    {t t' : NormalisedTransaction} (ht : t ∈ ts) (ht' : t' ∈ ts) (hid : t.id = t'.id) : t = t' :=
  List.inj_on_of_nodup_map h ht ht' hid

section

variable {P : NormalisedTransaction → NormalisedTransaction → Prop}
  {internals externals : List NormalisedTransaction}

/-- Each pair of the exact stage has a key in common. -/
theorem exactRun_autoMatched (hin : (ids internals).Nodup) (hex : (ids externals).Nodup) (run : Id)
    (h : ∀ internal ∈ internals, ∀ external ∈ externals, ∀ key, buildKey internal = some key →
      buildKey external = some key → P internal external) :
    (exactRun run internals externals).Work (OnAutoMatched P internals externals) := by
  apply exactRun_keyed (fun _ => trivial) (fun _ _ => trivial) (fun _ => trivial)
  intro internal hi external he key hkey hkey' count id _ i' hi' e' he' hidi hide
  rw [eq_of_ids hin hi' hi hidi, eq_of_ids hex he' he hide]
  exact h internal hi external he key hkey hkey'

/-- Each automatic match of the fuzzy stage is in the automatic band. -/
theorem fuzzyRun_autoMatched (hin : (ids internals).Nodup) (hex : (ids externals).Nodup)
    (f : FuzzyStrategy)
    (h : ∀ internal ∈ internals, ∀ external ∈ externals,
      InAutoBand f.text f.config f.amountToleranceMinor internal external → P internal external) :
    (fuzzyRun f internals externals).Work (OnAutoMatched P internals externals) := by
  unfold fuzzyRun
  split
  · exact work_fail _
  · rename_i generator hg
    apply level_work
    intro d
    dsimp only
    split
    · exact work_fail _
    · rename_i chosen hchosen
      apply Work.foldlM
      intro outcome chunk hchunk
      apply fuzzyChunk_work
        (fun m => ∀ id, OnAutoMatched P internals externals (.insertResult { m with id := id }))
        (fun _ => trivial) (fun _ _ => trivial) (fun _ => trivial) (fun r hr => hr r.id)
      intro m hm id hstatus i' hi' e' he' hidi hide
      obtain ⟨internal, external, count, set, he, hset, hcand, -, rfl⟩ :=
        fuzzyChoose_origin (fun t ht => ht) hchosen m (mem_chunksOf hchunk hm)
      obtain ⟨hi, hshares⟩ := CandidateGenerator.generate_shares hg hset hcand
      rw [eq_of_ids hin hi' hi hidi, eq_of_ids hex he' he hide]
      apply h internal hi external he
      apply (autoMatch_iff hshares.sameBook).mp
      by_contra hne
      simp [fuzzyColumns, hne] at hstatus

/-- The pairs of the statement have a reference that SQL does not count as blank. -/
theorem setBasedColumns_autoMatched {run : Id} {d : Db} {bankCode : String} {range : DateRange}
    (hids : (ids d.transactions).Nodup) (hclean : ∀ t ∈ d.transactions, CleanedReference t)
    (h : ∀ internal ∈ d.transactions, ∀ external ∈ d.transactions, HasReference internal →
      HasReference external → P internal external) :
    ∀ m ∈ setBasedColumns run d bankCode range, ∀ id,
      OnAutoMatched P d.transactions d.transactions (.insertResult { m with id := id }) := by
  intro m hm id _ i' hi' e' he' hidi hide
  obtain ⟨⟨internal, external⟩, hp, rfl⟩ := List.mem_map.mp hm
  have hpair := (mem_setBasedAllowed.mp hp).1
  obtain ⟨hi, -, -, hikey, -⟩ := mem_setBasedPool.mp (mem_setBasedPairs.mp hpair).1
  obtain ⟨he, -, -, hekey, -⟩ := mem_setBasedPool.mp (external_of_mem_setBasedPairs hpair).1
  have hreference : ∀ t ∈ d.transactions, (keyOf sqlBlank t).isSome = true → HasReference t := by
    intro t ht hkey
    obtain ⟨key, hkey⟩ := Option.isSome_iff_exists.mp hkey
    obtain ⟨reference, href, hkey⟩ := Option.bind_eq_some_iff.mp hkey
    refine ⟨reference, href, ?_⟩
    by_contra hblank
    have hempty := hclean t ht reference href (by simpa using hblank)
    simp [hempty] at hkey
  rw [eq_of_ids hids hi' hi hidi, eq_of_ids hids he' he hide]
  exact h internal hi external he (hreference internal hi hikey) (hreference external he hekey)

end

/-- The exact relation between the pairs that are matched automatically and what they rest on. -/
def EvidenceRule (text : TextSimilarity) (config : MatchingConfig) (tolerance : Int)
    (internal external : NormalisedTransaction) : Prop :=
  RestsOnEvidence text config tolerance internal external ↔
    (MissingReferenceScores config internal external →
      OthersSuffice text config tolerance internal external)

/-- **When a missing reference is no evidence.** In every run of the exact and fuzzy stages, a pair
that is matched automatically rests on evidence exactly when no missing reference scores in it, or
its other fields suffice. -/
theorem autoMatched_restsOnEvidence_iff (text : TextSimilarity) (config : MatchingConfig)
    (htext : text.EmptyText) (hc : config.Accepted text.float) (run : Id) (blocking : BlockingConfig)
    (tolerance : Int) (internals externals : List NormalisedTransaction)
    (hin : (ids internals).Nodup) (hex : (ids externals).Nodup)
    (hclean : ∀ t ∈ internals ++ externals, CleanedReference t) :
    (exactRun run internals externals).Work
        (OnAutoMatched (EvidenceRule text config tolerance) internals externals) ∧
      (fuzzyRun ⟨run, blocking, tolerance, config, text⟩ internals externals).Work
        (OnAutoMatched (EvidenceRule text config tolerance) internals externals) ∧
      ∀ (d : Db) (bankCode : String) (range : DateRange), (ids d.transactions).Nodup →
        (∀ t ∈ d.transactions, CleanedReference t) →
        ∀ m ∈ setBasedColumns run d bankCode range, ∀ id,
          OnAutoMatched (EvidenceRule text config tolerance) d.transactions d.transactions
            (.insertResult { m with id := id }) := by
  have hreferences : ∀ {internal external : NormalisedTransaction}, HasReference internal →
      HasReference external → EvidenceRule text config tolerance internal external := by
    intro internal external hi he
    refine ⟨fun _ hscores => ?_, fun _ => Or.inl ⟨hi, he⟩⟩
    obtain ⟨hnone, -⟩ | ⟨-, hnone, -⟩ := hscores
    · exact absurd hi hnone
    · exact absurd he hnone
  refine ⟨?_, ?_, ?_⟩
  · apply exactRun_autoMatched hin hex
    intro internal _ external _ key hkey hkey'
    exact hreferences (hasReference_of_key hkey) (hasReference_of_key hkey')
  · apply fuzzyRun_autoMatched hin hex
    intro internal hi external he hband
    exact restsOnEvidence_iff htext hc (hclean _ (List.mem_append_left _ hi))
      (hclean _ (List.mem_append_right _ he)) hband
  · intro d bankCode range hids hcleaned
    exact setBasedColumns_autoMatched hids hcleaned
      fun internal _ external _ hi he => hreferences hi he

/-! ## Two rows without a reference -/

theorem literalSimilarity_emptyText : literalSimilarity.EmptyText := by
  constructor
  · intro other hne
    simp [literalSimilarity, hne.symm]
  · intro other hne
    simp [literalSimilarity, hne]
  · simp [literalSimilarity]

/-- The blocking of a bank without settings of its own. -/
def shippedBlocking : BlockingConfig := { amountBucketWidthMinor := 10000, dateWindowDays := 2 }

/-- A library for texts in ASCII. -/
def asciiLibrary : TextLibrary where
  strptime _ _ := none
  zoneInfo _ := none
  decimal _ := .invalid

/-- One side of a payment of 1,000 rupees to a named party, whose reference cleans to nothing. -/
def unreferencedSide (id : Id) (source : Source) : NormalisedTransaction :=
  { paymentSide id source (cleanReference asciiLibrary "---") with
    counterpartyNameNormalised := some "ACME TRADERS" }

theorem unreferencedSide_cleaned : ∀ t ∈ [unreferencedSide 1 .internal] ++
    [unreferencedSide 2 .external], CleanedReference t := by
  intro t ht
  have hclean : t.normalisedReference = some (cleanReference asciiLibrary "---") := by
    simp only [List.singleton_append, List.mem_cons, List.not_mem_nil, or_false] at ht
    obtain rfl | rfl := ht
    · rfl
    · rfl
  exact cleanedReference_of_clean keepsText_toUpper hclean

theorem autoMatched_restsOnEvidence_iff_unreferenced :
    literalSimilarity.EmptyText ∧ shippedMatchingConfig.Accepted sixteenDigits ∧
      (fuzzyRun ⟨0, shippedBlocking, 0, shippedMatchingConfig, literalSimilarity⟩
        [unreferencedSide 1 .internal] [unreferencedSide 2 .external]).Work
        (OnAutoMatched (EvidenceRule literalSimilarity shippedMatchingConfig 0)
          [unreferencedSide 1 .internal] [unreferencedSide 2 .external]) :=
  ⟨literalSimilarity_emptyText, shippedMatchingConfig_accepted,
    (autoMatched_restsOnEvidence_iff literalSimilarity shippedMatchingConfig
      literalSimilarity_emptyText shippedMatchingConfig_accepted 0 shippedBlocking 0
      [unreferencedSide 1 .internal] [unreferencedSide 2 .external] (by decide) (by decide)
      unreferencedSide_cleaned).2.1⟩

/-- Two missing references carry a pair over the threshold that the other fields do not reach. -/
theorem unreferencedSides_matched :
    ¬ ∀ (text : TextSimilarity) (config : MatchingConfig) (run : Id) (blocking : BlockingConfig)
      (tolerance : Int) (internals externals : List NormalisedTransaction),
      text.EmptyText → config.Accepted text.float → (ids internals).Nodup → (ids externals).Nodup →
      (∀ t ∈ internals ++ externals, CleanedReference t) →
      (exactRun run internals externals).Work
          (OnAutoMatched (RestsOnEvidence text config tolerance) internals externals) ∧
        (fuzzyRun ⟨run, blocking, tolerance, config, text⟩ internals externals).Work
          (OnAutoMatched (RestsOnEvidence text config tolerance) internals externals) := by
  intro hall
  have hrun := (hall literalSimilarity shippedMatchingConfig 0 shippedBlocking 0
    [unreferencedSide 1 .internal] [unreferencedSide 2 .external] literalSimilarity_emptyText
    shippedMatchingConfig_accepted (by decide) (by decide) unreferencedSide_cleaned).2
  have hmeets : Meets shippedBlocking (unreferencedSide 1 .internal)
      (unreferencedSide 2 .external) := ⟨by decide, by decide, by decide, .inl ⟨_, rfl, rfl⟩⟩
  have hrow := fuzzyRun_alone hmeets (by decide +kernel) hrun
  obtain ⟨hreference, -⟩ | hothers := hrow (by decide +kernel) _ List.mem_cons_self _
    List.mem_cons_self (by decide +kernel) (by decide +kernel)
  · obtain ⟨reference, href, hblank⟩ := hreference
    rw [← Option.some.inj href] at hblank
    exact absurd hblank (by decide +kernel)
  · exact absurd hothers (by unfold OthersSuffice; decide +kernel)

end Recon
