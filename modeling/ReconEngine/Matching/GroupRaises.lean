import ReconEngine.Matching.FxBounds
import ReconEngine.Matching.GroupLinks
import ReconEngine.Matching.Rules

/-!
# When the group stage raises

A run of the group stage returns exactly when none of its turns comes to a link at which it raises.
There are three such links, all with candidates in more than one currency: the tolerance makes a
denominator of the bounds zero, the bounds are in the wrong order when the search asks for them, or
the group that the link names has no leg in a foreign currency to take the details from.

The amounts fit their column, so that the figures of the details fit the decimal context.

**The law** (`groupRun_returns_iff`): over every pool, every percentage and every rate, a run
returns exactly when no turn it comes to raises, and which turns raise is a predicate of pools,
percentage and amounts.

**What it does not establish.** What a run that raises leaves behind. It fails the run it is a stage
of, whose transaction is rolled back (`Runs.Failures`).
-/

set_option autoImplicit false

namespace Recon

open Store.Prog hiding pure bind

/-! ## The figures of the details -/

/-- Rounding neither doubles a value nor halves it. -/
theorem rounded_bounds {x : Rat} (h : 0 ≤ x) : x / 2 ≤ rounded x ∧ rounded x ≤ 2 * x := by
  have herror := abs_le.mp (Numeric.roundDigits_error contextPrecision x)
  rw [abs_of_nonneg h, contextPrecision] at herror
  have hsmall : x / (2 * (10 : Rat) ^ (((28 : Nat) : Int) - 1)) ≤ x / 2 := by
    refine div_le_div_of_nonneg_left h (by norm_num) ?_
    norm_num
  constructor <;> unfold rounded <;> rw [contextPrecision] <;> linarith [herror.1, herror.2]

/-- A figure that is not too large can be quantised. -/
theorem quantizeFour_ok {x : Rat} (h : 0 ≤ x) (hx : x ≤ 2 * 10 ^ 23) :
    ∃ v, quantizeFour x = .ok v := by
  have hlow : 0 ≤ halfEven (x * 10000) := Numeric.le_halfEven (by push_cast; linarith)
  have hhigh : halfEven (x * 10000) ≤ 2 * 10 ^ 27 := Numeric.halfEven_le (by push_cast; linarith)
  unfold quantizeFour
  dsimp only
  rw [abs_of_nonneg hlow, contextPrecision, if_neg (by omega)]
  exact ⟨_, rfl⟩

/-- A percentage of two amounts is not too large. -/
theorem relativeDifference_bounds {a b : Int} (ha : 0 ≤ a) (hb : 0 ≤ b) :
    0 ≤ relativeDifferencePercent a b ∧ relativeDifferencePercent a b ≤ 2 * 10 ^ 23 := by
  unfold relativeDifferencePercent
  dsimp only
  have hsum : (0 : Rat) ≤ ((a + b : Int) : Rat) / 2 := by
    have : (0 : Rat) ≤ ((a + b : Int) : Rat) := by exact_mod_cast add_nonneg ha hb
    linarith
  have hmean := rounded_bounds hsum
  have hdiff := rounded_bounds (abs_nonneg ((a - b : Int) : Rat))
  have hle : |((a - b : Int) : Rat)| ≤ ((a + b : Int) : Rat) := by
    have ha' : (0 : Rat) ≤ a := by exact_mod_cast ha
    have hb' : (0 : Rat) ≤ b := by exact_mod_cast hb
    push_cast
    exact abs_le.mpr ⟨by linarith, by linarith⟩
  split
  · exact ⟨le_refl _, by norm_num⟩
  · rename_i hne
    have hpos : 0 < rounded (((a + b : Int) : Rat) / 2) :=
      lt_of_le_of_ne (by linarith [hmean.1]) (Ne.symm hne)
    have hratio : rounded |((a - b : Int) : Rat)| / rounded (((a + b : Int) : Rat) / 2) ≤ 8 := by
      rw [div_le_iff₀ hpos]
      linarith [hmean.1, hdiff.2]
    have hratio₀ : 0 ≤ rounded |((a - b : Int) : Rat)| / rounded (((a + b : Int) : Rat) / 2) :=
      div_nonneg (by linarith [hdiff.1, abs_nonneg ((a - b : Int) : Rat)]) hpos.le
    have hinner := rounded_bounds hratio₀
    have houter := rounded_bounds (show 0 ≤ rounded (rounded |((a - b : Int) : Rat)| /
      rounded (((a + b : Int) : Rat) / 2)) * 100 by linarith [hinner.1])
    exact ⟨by linarith [houter.1, hinner.1], by linarith [houter.2, hinner.2]⟩

/-- An implied rate out of an amount of at most fifty columns can be written down. -/
theorem impliedRate_quantizes {inrMinor foreignMinor : Int} {currency : String}
    (hknown : (currencyExponent currency).isSome = true) (h0 : 0 ≤ inrMinor)
    (hinr : inrMinor ≤ 10 ^ 21) (hforeign : 0 ≤ foreignMinor) :
    ∃ rate implied, impliedRate inrMinor foreignMinor currency = .ok rate ∧
      quantizeRate rate = .ok implied := by
  obtain ⟨exponent, hexponent⟩ := Option.isSome_iff_exists.mp hknown
  unfold impliedRate
  rw [hexponent]
  by_cases hzero : foreignMinor = 0
  · rw [if_pos hzero]
    exact ⟨none, none, rfl, rfl⟩
  · rw [if_neg hzero]
    have hone : (1 : Rat) ≤ foreignMinor := by
      have : 1 ≤ foreignMinor := by omega
      exact_mod_cast this
    have hscale : (10 : Rat) ^ (-2 : Int) ≤ (10 : Rat) ^ ((exponent : Int) - 2) :=
      zpow_le_zpow_right₀ (by norm_num) (by omega)
    have hscaled : (1 : Rat) / 100 ≤ foreignMinor * (10 : Rat) ^ ((exponent : Int) - 2) := by
      have hunit : (10 : Rat) ^ (-2 : Int) = 1 / 100 := by norm_num
      rw [hunit] at hscale
      nlinarith
    have hden := rounded_bounds (show (0 : Rat) ≤ foreignMinor * (10 : Rat) ^ ((exponent : Int) - 2) by
      linarith)
    have hden' : (1 : Rat) / 200 ≤ rounded (foreignMinor * (10 : Rat) ^ ((exponent : Int) - 2)) := by
      linarith [hden.1]
    have hinr' : (inrMinor : Rat) ≤ 10 ^ 21 := by exact_mod_cast hinr
    have h0' : (0 : Rat) ≤ inrMinor := by exact_mod_cast h0
    have hrate₀ : 0 ≤ (inrMinor : Rat) /
        rounded (foreignMinor * (10 : Rat) ^ ((exponent : Int) - 2)) :=
      div_nonneg h0' (by linarith)
    have hrate : (inrMinor : Rat) / rounded (foreignMinor * (10 : Rat) ^ ((exponent : Int) - 2)) ≤
        2 * 10 ^ 23 := by
      rw [div_le_iff₀ (by linarith)]
      nlinarith
    obtain ⟨v, hv⟩ := quantizeFour_ok (rounded_nonneg hrate₀)
      (rounded_le (m := 2) (e := 23) (by norm_num) (by norm_num) hrate)
    obtain ⟨rate, hrate⟩ : ∃ r, r = rounded ((inrMinor : Rat) /
      rounded (foreignMinor * (10 : Rat) ^ ((exponent : Int) - 2))) := ⟨_, rfl⟩
    rw [← hrate] at hv
    by_cases hrounded : rate = 0
    · exact ⟨some rate, none, by rw [hrate], if_pos hrounded⟩
    · refine ⟨some rate, some v, by rw [hrate], ?_⟩
      rw [quantizeRate, if_neg hrounded, hv]
      rfl

/-! ## What the columns allow -/

theorem except_bind_of_ok {ε α β : Type} {x : Except ε α} {f : α → Except ε β} {a : α}
    (h : x = .ok a) : x >>= f = f a := by
  rw [h]
  rfl

/-- What only goes on succeeds where it starts from succeeds. -/
theorem except_bind_total {ε α β : Type} {x : Except ε α} {f : α → Except ε β}
    (hf : ∀ a, ∃ b, f a = .ok b) : (∃ b, x >>= f = .ok b) ↔ ∃ a, x = .ok a := by
  cases x with
  | ok a => exact iff_of_true (hf a) ⟨a, rfl⟩
  | error e =>
    refine iff_of_false (fun h => ?_) fun h => ?_
    · obtain ⟨_, h⟩ := h
      cases h
    · obtain ⟨_, h⟩ := h
      cases h

theorem except_map_total {ε α β : Type} {x : Except ε α} {f : α → β} :
    (∃ b, x.map f = .ok b) ↔ ∃ a, x = .ok a :=
  except_bind_total (f := fun a => .ok (f a)) fun a => ⟨f a, rfl⟩

theorem except_error_iff {ε α : Type} {x : Except ε α} :
    (∃ e, x = .error e) ↔ ¬ ∃ a, x = .ok a := by
  cases x with
  | ok a =>
    refine iff_of_false (fun h => ?_) fun h => h ⟨a, rfl⟩
    obtain ⟨_, h⟩ := h
    cases h
  | error e =>
    refine iff_of_true ⟨e, rfl⟩ fun h => ?_
    obtain ⟨_, h⟩ := h
    cases h

/-- The largest amount a 64-bit column holds. -/
def largestAmount : Int := 9223372036854775807

/-- A transaction as its columns hold it: a currency with known minor units, and an amount that is
not negative and fits a 64-bit integer. -/
structure Storable (t : NormalisedTransaction) : Prop where
  currency : (currencyExponent t.currency).isSome = true
  nonneg : 0 ≤ t.amountMinor
  fits : t.amountMinor ≤ largestAmount

instance (t : NormalisedTransaction) : Decidable (Storable t) :=
  decidable_of_iff ((currencyExponent t.currency).isSome = true ∧ 0 ≤ t.amountMinor ∧
    t.amountMinor ≤ largestAmount)
    ⟨fun h => ⟨h.1, h.2.1, h.2.2⟩, fun h => ⟨h.currency, h.nonneg, h.fits⟩⟩

theorem sum_amounts_nonneg : ∀ {ts : List NormalisedTransaction}, (∀ t ∈ ts, 0 ≤ t.amountMinor) →
    0 ≤ (ts.map (·.amountMinor)).sum
  | [], _ => le_refl _
  | t :: ts, h => by
    rw [List.map_cons, List.sum_cons]
    exact add_nonneg (h t List.mem_cons_self)
      (sum_amounts_nonneg fun x hx => h x (List.mem_cons_of_mem t hx))

section

variable {single : NormalisedTransaction} {members : List NormalisedTransaction}
  {singleInr membersInr : Int}

/-- The rate that a group implies can be quantised. -/
theorem groupImpliedRate_quantizes {foreign : NormalisedTransaction}
    {rest : List NormalisedTransaction}
    (hforeign : (single :: members).filter (·.currency != "INR") = foreign :: rest)
    (hstorable : ∀ t ∈ single :: members, Storable t) (hsingle : 0 ≤ singleInr)
    (hmembers : 0 ≤ membersInr) (hsingleInr : single.currency = "INR" → singleInr ≤ 10 ^ 21)
    (hmembersInr : (∀ m ∈ members, m.currency = "INR") → membersInr ≤ 10 ^ 21) :
    ∃ rate implied, groupImpliedRate single members (foreign :: rest) foreign.currency
        ((foreign :: rest).map (·.amountMinor)).sum singleInr membersInr = .ok rate ∧
      quantizeRate rate = .ok implied := by
  have hmem : ∀ t ∈ foreign :: rest, Storable t := fun t ht =>
    hstorable t (List.mem_of_mem_filter (hforeign ▸ ht))
  have hknown := (hmem foreign List.mem_cons_self).currency
  have hsum := sum_amounts_nonneg fun t ht => (hmem t ht).nonneg
  unfold groupImpliedRate
  dsimp only
  by_cases hinr : single.currency = "INR"
  · rw [if_neg (not_not.mpr hinr), if_neg (not_not.mpr hinr)]
    split
    · exact impliedRate_quantizes hknown hsingle (hsingleInr hinr) hsum
    · exact ⟨none, none, rfl, rfl⟩
  · rw [if_pos hinr, if_pos hinr]
    split
    · rename_i hother
      rw [Bool.and_eq_true, List.all_eq_true, List.all_eq_true] at hother
      exact impliedRate_quantizes hknown hmembers
        (hmembersInr fun m hm => by simpa using hother.2 m hm) hsum
    · exact ⟨none, none, rfl, rfl⟩

/-- The details are there exactly when a leg is in a foreign currency. -/
theorem fxDetails_ok_iff (hstorable : ∀ t ∈ single :: members, Storable t) (hsingle : 0 ≤ singleInr)
    (hmembers : 0 ≤ membersInr) (hsingleInr : single.currency = "INR" → singleInr ≤ 10 ^ 21)
    (hmembersInr : (∀ m ∈ members, m.currency = "INR") → membersInr ≤ 10 ^ 21) :
    (∃ fx, fxDetails single members singleInr membersInr = .ok fx) ↔
      ∃ t ∈ single :: members, t.currency ≠ "INR" := by
  unfold fxDetails
  cases hforeign : (single :: members).filter (·.currency != "INR") with
  | nil =>
    refine iff_of_false (fun h => ?_) fun h => ?_
    · obtain ⟨fx, h⟩ := h
      cases h
    · obtain ⟨t, ht, hne⟩ := h
      have := List.filter_eq_nil_iff.mp hforeign t ht
      simp [hne] at this
  | cons foreign rest =>
    have hmem : foreign ∈ (single :: members).filter (·.currency != "INR") :=
      hforeign ▸ List.mem_cons_self
    obtain ⟨hin, hne⟩ := List.mem_filter.mp hmem
    refine iff_of_true ?_ ⟨foreign, hin, by simpa using hne⟩
    obtain ⟨rate, implied, hrate, himplied⟩ :=
      groupImpliedRate_quantizes hforeign hstorable hsingle hmembers hsingleInr hmembersInr
    obtain ⟨h0, hmax⟩ := relativeDifference_bounds hsingle hmembers
    obtain ⟨variance, hvariance⟩ := quantizeFour_ok h0 hmax
    dsimp only
    rw [except_bind_of_ok hrate, except_bind_of_ok himplied, except_bind_of_ok hvariance]
    exact ⟨_, rfl⟩

end

/-! ## The legs -/

/-- Every leg has a rate. -/
def AllQuoted (d : Db) (ts : List NormalisedTransaction) : Prop :=
  ∀ t ∈ ts, (d.quote t.currency t.txnDate).isSome = true

/-- The tolerance leaves no bounds: a denominator is zero. -/
def NoBounds (tolerancePercent : Rat) : Prop := rounded (2 - rounded (tolerancePercent / 100)) = 0

/-- When there are no bounds for a tolerance. -/
theorem fxBounds_error_iff {p : Rat} (hp : 0 < p) (target : Int) :
    (∃ e, fxBounds p target = .error e) ↔ NoBounds p := by
  have ht := rounded_nonneg (show 0 ≤ p / 100 by linarith)
  have habove : rounded (2 + rounded (p / 100)) ≠ 0 := by
    have := (rounded_bounds (show 0 ≤ 2 + rounded (p / 100) by linarith)).1
    linarith
  unfold fxBounds NoBounds
  dsimp only
  constructor
  · intro h
    obtain ⟨e, h⟩ := h
    split at h
    · rename_i hzero
      exact hzero.resolve_left habove
    · cases h
  · intro hzero
    rw [if_pos (Or.inr hzero)]
    exact ⟨_, rfl⟩

section

variable {d : Db} {t single : NormalisedTransaction} {ts candidates : List NormalisedTransaction}
  {g : GroupStrategy} {legs : GroupLegs}

theorem legInr_unquoted (h : d.quote t.currency t.txnDate = none) :
    (legInr t).answer d = .ok none := by
  have hquote : (quote t.currency t.txnDate).answer d = .ok none := congrArg Except.ok h
  rw [legInr, bind_eq, Reads.answer_bind (reads_quote _ _), except_bind_of_ok hquote]
  rfl

/-- A quoted leg in a known currency is converted. -/
theorem legInr_quoted (hknown : (currencyExponent t.currency).isSome = true) {q : FxQuote}
    (h : d.quote t.currency t.txnDate = some q) : ∃ inr, (legInr t).answer d = .ok (some inr) ∧
      (t.currency = "INR" → inr = t.amountMinor) := by
  have hquote : (quote t.currency t.txnDate).answer d = .ok (some q) := congrArg Except.ok h
  rw [legInr, bind_eq, Reads.answer_bind (reads_quote _ _), except_bind_of_ok hquote]
  dsimp only
  obtain ⟨exponent, hexponent⟩ := Option.isSome_iff_exists.mp hknown
  by_cases hinr : t.currency = "INR"
  · have hconvert : toInrMinor t.amountMinor t.currency q.rateInr = .ok t.amountMinor := if_pos hinr
    rw [hconvert]
    exact ⟨_, rfl, fun _ => rfl⟩
  · obtain ⟨inr, hconvert⟩ : ∃ inr, toInrMinor t.amountMinor t.currency q.rateInr = .ok inr := by
      unfold toInrMinor
      rw [if_neg hinr, hexponent]
      exact ⟨_, rfl⟩
    rw [hconvert]
    exact ⟨_, rfl, fun h => absurd h hinr⟩

/-- The converted amounts of some legs; those in INR are what they were. -/
def ConvertedLegs : List NormalisedTransaction → List Int → Prop :=
  List.Forall₂ fun t inr => t.currency = "INR" → inr = t.amountMinor

/-- The legs are converted when all of them are quoted, and otherwise there are none. -/
theorem legsInr_answer : ∀ {ts : List NormalisedTransaction},
    (∀ t ∈ ts, (currencyExponent t.currency).isSome = true) →
      (AllQuoted d ts ∧ ∃ out, (legsInr ts).answer d = .ok (some out) ∧ ConvertedLegs ts out) ∨
        (¬ AllQuoted d ts ∧ (legsInr ts).answer d = .ok none)
  | [], _ => Or.inl ⟨fun _ h => absurd h List.not_mem_nil, [], rfl, List.Forall₂.nil⟩
  | t :: ts, hknown => by
    rw [legsInr, bind_eq, Reads.answer_bind (reads_legInr t)]
    cases hquote : d.quote t.currency t.txnDate with
    | none =>
      refine Or.inr ⟨fun hall => ?_, ?_⟩
      · have := hall t List.mem_cons_self
        rw [hquote] at this
        cases this
      · rw [except_bind_of_ok (legInr_unquoted hquote)]
        rfl
    | some q =>
      obtain ⟨inr, hinr, hsame⟩ := legInr_quoted (hknown t List.mem_cons_self) hquote
      rw [except_bind_of_ok hinr]
      dsimp only
      rw [bind_eq, Reads.answer_bind (reads_legsInr ts)]
      rcases legsInr_answer fun x hx => hknown x (List.mem_cons_of_mem t hx) with
        ⟨hall, out, hout, hconverted⟩ | ⟨hnot, hnone⟩
      · refine Or.inl ⟨fun x hx => ?_, inr :: out, ?_, List.Forall₂.cons hsame hconverted⟩
        · rcases List.mem_cons.mp hx with rfl | hx
          · rw [hquote]
            rfl
          · exact hall x hx
        · rw [except_bind_of_ok hout]
          rfl
      · refine Or.inr ⟨fun hall => hnot fun x hx => hall x (List.mem_cons_of_mem t hx), ?_⟩
        rw [except_bind_of_ok hnone]
        rfl

/-- The candidates are compared in INR. -/
structure Converted (d : Db) (g : GroupStrategy) (single : NormalisedTransaction)
    (candidates : List NormalisedTransaction) : Prop where
  mixed : candidates.all (·.currency == single.currency) = false
  fx : g.fx = true
  quoted : AllQuoted d (single :: candidates)

/-- The comparison fails exactly for want of bounds. -/
theorem Db.legs_error_iff (hp : 0 < g.config.fxTolerancePercent)
    (hknown : ∀ t ∈ single :: candidates, (currencyExponent t.currency).isSome = true) :
    (∃ e, d.legs g single candidates = .error e) ↔
      Converted d g single candidates ∧ NoBounds g.config.fxTolerancePercent := by
  unfold Db.legs groupLegs
  split
  · rename_i hsame
    refine iff_of_false (fun h => ?_) fun h => ?_
    · obtain ⟨e, h⟩ := h
      cases h
    · rw [h.1.mixed] at hsame
      cases hsame
  · rename_i hmixed
    rw [Bool.not_eq_true] at hmixed
    split
    · rename_i hfx
      refine iff_of_false (fun h => ?_) fun h => ?_
      · obtain ⟨e, h⟩ := h
        cases h
      · rw [h.1.fx] at hfx
        cases hfx
    · rename_i hfx
      rw [Bool.not_eq_true', Bool.not_eq_false] at hfx
      rw [bind_eq, Reads.answer_bind (reads_legsInr _)]
      rcases @legsInr_answer d _ hknown with ⟨hall, out, hout, hconverted⟩ | ⟨hnot, hnone⟩
      · rw [except_bind_of_ok hout]
        cases out with
        | nil => cases hconverted
        | cons target amounts =>
          dsimp only
          rw [bind_eq, Reads.answer_bind (reads_ofExcept _), answer_ofExcept,
            ← fxBounds_error_iff hp target]
          cases hbounds : fxBounds g.config.fxTolerancePercent target with
          | error e => exact iff_of_true ⟨e, rfl⟩ ⟨⟨hmixed, hfx, hall⟩, e, rfl⟩
          | ok bounds =>
            refine iff_of_false (fun h => ?_) fun h => ?_
            · obtain ⟨e, h⟩ := h
              cases h
            · obtain ⟨-, e, h⟩ := h
              cases h
      · rw [except_bind_of_ok hnone]
        refine iff_of_false (fun h => ?_) fun h => hnot h.1.quoted
        obtain ⟨e, h⟩ := h
        cases h

/-- The amounts of a link: minor units within the tolerance, or INR within the bounds. -/
theorem Db.legs_some (hknown : ∀ t ∈ single :: candidates, (currencyExponent t.currency).isSome = true)
    (h : d.legs g single candidates = .ok (some legs)) :
    (candidates.all (·.currency == single.currency) = true ∧
        legs = { target := single.amountMinor, amounts := candidates.map (·.amountMinor),
                 low := single.amountMinor - g.config.toleranceMinor,
                 high := single.amountMinor + g.config.toleranceMinor, fx := false }) ∨
      (Converted d g single candidates ∧ legs.fx = true ∧
        ConvertedLegs (single :: candidates) (legs.target :: legs.amounts) ∧
        fxBounds g.config.fxTolerancePercent legs.target = .ok (legs.low, legs.high)) := by
  unfold Db.legs groupLegs at h
  split at h
  · rename_i hsame
    cases h
    exact Or.inl ⟨hsame, rfl⟩
  · rename_i hmixed
    rw [Bool.not_eq_true] at hmixed
    split at h
    · cases h
    · rename_i hfx
      rw [Bool.not_eq_true', Bool.not_eq_false] at hfx
      rw [bind_eq, Reads.answer_bind (reads_legsInr _)] at h
      rcases @legsInr_answer d _ hknown with ⟨hall, out, hout, hconverted⟩ | ⟨-, hnone⟩
      · rw [except_bind_of_ok hout] at h
        cases out with
        | nil => cases hconverted
        | cons target amounts =>
          dsimp only at h
          rw [bind_eq, Reads.answer_bind (reads_ofExcept _), answer_ofExcept] at h
          obtain ⟨bounds, hbounds, h⟩ := except_bind_ok h
          cases h
          exact Or.inr ⟨⟨hmixed, hfx, hall⟩, rfl, hconverted, hbounds⟩
      · rw [except_bind_of_ok hnone] at h
        cases h

end

/-! ## The links at which the stage raises -/

/-- The stage raises at these candidates of a link. -/
def LinkRaises (d : Db) (g : GroupStrategy) (maxMembers : Nat) (single : NormalisedTransaction)
    (candidates : List NormalisedTransaction) : Prop :=
  2 ≤ candidates.length ∧ Converted d g single candidates ∧
    (NoBounds g.config.fxTolerancePercent ∨
      ∃ legs, d.legs g single candidates = .ok (some legs) ∧
        ((¬ WholeFits legs maxMembers ∧ candidates.length ≤ g.config.maxSearchCandidates ∧
            legs.high < legs.low) ∨
          ∃ s, NamesGroup g.config maxMembers legs s ∧
            ∀ t ∈ single :: membersAt candidates s, t.currency = "INR"))

section

variable {d : Db} {g : GroupStrategy} {maxMembers : Nat} {single : NormalisedTransaction}
  {candidates : List NormalisedTransaction} {link : GroupLink} {confidence : Nat}
  {outcome : GroupMatchOutcome} {legs : GroupLegs} {s : Finset Nat}

/-- The choice fails exactly when a search is asked for bounds in the wrong order. -/
theorem chooseMembers_error_iff {config : GroupMatchConfig} {n : Nat}
    (hlen : legs.amounts.length = n) (hmax : 2 ≤ maxMembers) :
    (∃ e, chooseMembers config maxMembers legs n = .error e) ↔
      ¬ WholeFits legs maxMembers ∧ n ≤ config.maxSearchCandidates ∧ legs.high < legs.low := by
  subst hlen
  unfold chooseMembers
  by_cases hwhole : WholeFits legs maxMembers
  · have hfits := hwhole
    unfold WholeFits at hfits
    rw [if_pos hfits]
    refine iff_of_false (fun h => ?_) fun h => h.1 hwhole
    obtain ⟨e, h⟩ := h
    cases h
  · rw [and_iff_right hwhole]
    unfold WholeFits at hwhole
    rw [if_neg hwhole]
    by_cases hmany : legs.amounts.length > config.maxSearchCandidates
    · rw [if_pos hmany]
      refine iff_of_false (fun h => ?_) fun h => absurd h.1 (Nat.not_le.mpr hmany)
      obtain ⟨e, h⟩ := h
      cases h
    · rw [if_neg hmany, and_iff_right (Nat.not_lt.mp hmany)]
      by_cases hrange : legs.low ≤ legs.high
      · obtain ⟨found, hrun, -⟩ :=
          findUniqueSubset_spec config.maxDpStates hrange (by decide : 1 ≤ 2) hmax
        rw [hrun]
        refine iff_of_false (fun h => ?_) (by omega)
        obtain ⟨e, h⟩ := h
        cases h
      · unfold findUniqueSubset
        rw [if_pos (by omega)]
        exact iff_of_true ⟨_, rfl⟩ (by omega)

/-- A leg in INR keeps its amount. -/
theorem ConvertedLegs.getD {ts : List NormalisedTransaction} {out : List Int}
    (h : ConvertedLegs ts out) {i : Nat} {t : NormalisedTransaction} (hget : ts[i]? = some t)
    (hinr : t.currency = "INR") : out.getD i 0 = t.amountMinor := by
  obtain ⟨hlen, hall⟩ := List.forall₂_iff_get.mp h
  obtain ⟨hi, hget⟩ := List.getElem?_eq_some_iff.mp hget
  have hi' : i < out.length := hlen ▸ hi
  rw [List.getD_eq_getElem _ _ hi', ← hget]
  exact hall i hi hi' (by rw [List.get_eq_getElem, hget]; exact hinr)

/-- The members of a group in INR add up to less than fifty columns can hold. -/
theorem membersMinor_le (hstorable : ∀ t ∈ candidates, Storable t)
    (hconverted : ConvertedLegs candidates legs.amounts) (hmax : maxMembers ≤ 50)
    (hs : AllowedSet legs maxMembers s) (hinr : ∀ m ∈ membersAt candidates s, m.currency = "INR") :
    (s.sort.map fun i => legs.amounts.getD i 0).sum ≤ 10 ^ 21 := by
  have hone : ∀ a ∈ s.sort.map fun i => legs.amounts.getD i 0, a ≤ largestAmount := by
    intro a ha
    obtain ⟨i, hi, rfl⟩ := List.mem_map.mp ha
    have hi' := (Finset.mem_sort _).mp hi
    have hlt : i < candidates.length := by
      rw [(List.Forall₂.length_eq hconverted)]
      exact Finset.mem_range.mp (hs.below hi')
    have hget := List.getElem?_eq_getElem hlt
    rw [hconverted.getD hget (hinr _ (mem_membersAt.mpr ⟨i, hi', hget⟩))]
    exact (hstorable _ (List.getElem_mem hlt)).fits
  have hsum := List.sum_le_card_nsmul _ _ hone
  rw [List.length_map, Finset.length_sort, nsmul_eq_mul] at hsum
  have hcard : (s.card : Int) ≤ 50 := by exact_mod_cast hs.atMost.trans hmax
  have hlargest : (50 : Int) * largestAmount ≤ 10 ^ 21 := by decide
  have h0 : (0 : Int) ≤ largestAmount := by decide
  exact (hsum.trans (mul_le_mul_of_nonneg_right hcard h0)).trans hlargest

theorem groupSolution_eq {chosen : List Nat} :
    groupSolution single candidates link confidence legs chosen =
      groupFx single (chosen.filterMap (candidates[·]?)) legs
        (chosen.map fun i => legs.amounts.getD i 0).sum >>= fun fx =>
          .ok { members := chosen.filterMap (candidates[·]?)
                confidence := if fx.isSome then 900 else confidence, link := link, fx := fx
                singleMinor := legs.target
                membersMinor := (chosen.map fun i => legs.amounts.getD i 0).sum } := rfl

/-- The solution of an allowed set can be made, unless it was compared in INR and has no foreign
leg. -/
theorem groupSolution_ok_iff (hstorable : ∀ t ∈ single :: candidates, Storable t)
    (hrates : ∀ r ∈ d.rates, 0 < r.rateInr) (hmax : maxMembers ≤ 50)
    (h : d.legs g single candidates = .ok (some legs)) (hs : AllowedSet legs maxMembers s) :
    (∃ solution, groupSolution single candidates link confidence legs s.sort = .ok solution) ↔
      (Converted d g single candidates →
        ∃ t ∈ single :: membersAt candidates s, t.currency ≠ "INR") := by
  rw [groupSolution_eq, ← membersAt]
  generalize hminor : (s.sort.map fun i => legs.amounts.getD i 0).sum = minor
  rw [except_bind_total fun fx => ⟨_, rfl⟩, groupFx]
  rcases Db.legs_some (fun t ht => (hstorable t ht).currency) h with
    ⟨hsame, hlegs⟩ | ⟨hconverted, hfx, hlegs, -⟩
  · rw [if_neg (by rw [hlegs]; exact Bool.false_ne_true)]
    refine iff_of_true ⟨none, rfl⟩ fun hc => ?_
    rw [hc.mixed] at hsame
    cases hsame
  · rw [if_pos hfx, imp_iff_right hconverted]
    have hnonneg := Db.legs_nonneg (fun t ht => (hstorable t ht).nonneg) hrates h
    obtain ⟨hhead, htail⟩ := List.forall₂_cons.mp hlegs
    have hmembers : ∀ t ∈ single :: membersAt candidates s, Storable t := by
      intro t ht
      rcases List.mem_cons.mp ht with rfl | ht
      · exact hstorable _ List.mem_cons_self
      · obtain ⟨i, -, hget⟩ := mem_membersAt.mp ht
        exact hstorable t (List.mem_cons_of_mem _ (List.mem_of_getElem? hget))
    have hminor₀ : 0 ≤ minor := by
      rw [← hminor]
      refine List.sum_nonneg fun a ha => ?_
      obtain ⟨i, -, rfl⟩ := List.mem_map.mp ha
      exact getD_nonneg (fun a ha => hnonneg a (List.mem_cons_of_mem _ ha)) i
    have hlarge : largestAmount ≤ 10 ^ 21 := by decide
    rw [← fxDetails_ok_iff hmembers (hnonneg _ List.mem_cons_self) hminor₀
      (fun hinr => hhead hinr ▸ (hstorable _ List.mem_cons_self).fits.trans hlarge)
      fun hinr => hminor ▸ membersMinor_le (fun t ht => hstorable t (List.mem_cons_of_mem _ ht))
        htail hmax hs hinr]
    exact except_map_total

/-- Amounts in one currency leave the bounds in order. -/
theorem Converted.of_reversed (hstorable : ∀ t ∈ single :: candidates, Storable t)
    (htolerance : 0 ≤ g.config.toleranceMinor)
    (h : d.legs g single candidates = .ok (some legs)) (hreversed : legs.high < legs.low) :
    Converted d g single candidates := by
  rcases Db.legs_some (fun t ht => (hstorable t ht).currency) h with ⟨-, rfl⟩ | ⟨hconverted, -⟩
  · dsimp only at hreversed
    omega
  · exact hconverted

/-- What a choice leads to fails exactly when the solution of a named group cannot be made. -/
theorem concludeFit_error_iff {n : Nat} {found : SubsetSearch} (hlen : legs.amounts.length = n)
    (h : chooseMembers g.config maxMembers legs n = .ok found) :
    (∃ e, concludeFit single candidates link confidence outcome legs found = .error e) ↔
      ∃ s, NamesGroup g.config maxMembers legs s ∧
        ¬ ∃ solution, groupSolution single candidates link confidence legs s.sort = .ok solution := by
  by_cases hu : found.outcome = .unique
  · have hincreasing := (chooseMembers_indices hlen h hu).1
    have hconclude : (∃ e, concludeFit single candidates link confidence outcome legs found =
        .error e) ↔ ¬ ∃ solution, groupSolution single candidates link confidence legs
          found.indices = .ok solution := by
      rw [except_error_iff, concludeFit, hu]
      exact not_congr (except_bind_total fun solution => ⟨_, rfl⟩)
    rw [hconclude]
    constructor
    · intro hnot
      refine ⟨_, NamesGroup.of_choice hlen h hu, ?_⟩
      rwa [sort_indices hincreasing]
    · intro hnamed
      obtain ⟨s, hs, hnot⟩ := hnamed
      obtain ⟨found', hfound', -, hindices⟩ := hs.choice hlen
      obtain rfl : found' = found := Except.ok.inj (hfound'.symm.trans h)
      rwa [hindices]
  · refine iff_of_false (fun herror => ?_) fun hnamed => ?_
    · obtain ⟨e, herror⟩ := herror
      unfold concludeFit at herror
      split at herror
      · cases herror
      · cases herror
      · cases herror
      · rename_i hunique
        exact hu hunique
    · obtain ⟨s, hs, -⟩ := hnamed
      obtain ⟨found', hfound', hunique, -⟩ := hs.choice hlen
      obtain rfl : found' = found := Except.ok.inj (hfound'.symm.trans h)
      exact hu hunique

/-- A link fails exactly when the stage raises at its candidates. -/
theorem groupLink_error_iff (hstorable : ∀ t ∈ single :: candidates, Storable t)
    (hrates : ∀ r ∈ d.rates, 0 < r.rateInr) (hmax : 2 ≤ maxMembers ∧ maxMembers ≤ 50)
    (htolerance : 0 ≤ g.config.toleranceMinor) (hp : 0 < g.config.fxTolerancePercent) :
    (∃ e, (groupLink g maxMembers single candidates link confidence outcome).answer d = .error e) ↔
      LinkRaises d g maxMembers single candidates := by
  unfold groupLink LinkRaises
  by_cases hfew : candidates.length < 2
  · rw [if_pos hfew]
    refine iff_of_false (fun h => ?_) fun h => by omega
    obtain ⟨e, h⟩ := h
    cases h
  rw [if_neg hfew, and_iff_right (Nat.not_lt.mp hfew), groupFit_answer]
  have herror := @Db.legs_error_iff d single candidates g hp fun t ht => (hstorable t ht).currency
  cases hlegs : d.legs g single candidates with
  | error e =>
    obtain ⟨hconverted, hbounds⟩ := herror.mp ⟨e, hlegs⟩
    exact iff_of_true ⟨e, rfl⟩ ⟨hconverted, Or.inl hbounds⟩
  | ok out =>
    have hbounds : ¬ (Converted d g single candidates ∧ NoBounds g.config.fxTolerancePercent) := by
      intro h
      obtain ⟨e, h⟩ := herror.mpr h
      rw [hlegs] at h
      cases h
    cases out with
    | none =>
      refine iff_of_false (fun h => ?_) fun h => ?_
      · obtain ⟨e, h⟩ := h
        cases h
      · rcases h with ⟨hconverted, hno | ⟨legs, h, -⟩⟩
        · exact hbounds ⟨hconverted, hno⟩
        · cases h
    | some legs =>
      change (∃ e, searchFit g maxMembers single candidates link confidence outcome (some legs) =
        .error e) ↔ _
      rw [searchFit]
      have hlen := Db.legs_length hlegs
      have hchoose := @chooseMembers_error_iff maxMembers legs g.config candidates.length hlen hmax.1
      have hmade := fun s (hs : AllowedSet legs maxMembers s) =>
        @groupSolution_ok_iff d g maxMembers single candidates link confidence legs s hstorable
          hrates hmax.2 hlegs hs
      cases hfound : chooseMembers g.config maxMembers legs candidates.length with
      | error e =>
        have hreversed := hchoose.mp ⟨e, hfound⟩
        exact iff_of_true ⟨e, rfl⟩
          ⟨Converted.of_reversed hstorable htolerance hlegs hreversed.2.2,
            Or.inr ⟨legs, rfl, Or.inl hreversed⟩⟩
      | ok found =>
        have hordered : ¬ (¬ WholeFits legs maxMembers ∧
            candidates.length ≤ g.config.maxSearchCandidates ∧ legs.high < legs.low) := by
          intro h
          obtain ⟨e, h⟩ := hchoose.mpr h
          rw [hfound] at h
          cases h
        refine (concludeFit_error_iff hlen hfound).trans ?_
        constructor
        · intro h
          obtain ⟨s, hs, hnot⟩ := h
          rw [hmade s hs.allowed] at hnot
          push Not at hnot
          exact ⟨hnot.1, Or.inr ⟨legs, rfl, Or.inr ⟨s, hs, hnot.2⟩⟩⟩
        · intro h
          obtain ⟨hconverted, h⟩ := h
          rcases h with hno | ⟨legs', heq, h⟩
          · exact absurd ⟨hconverted, hno⟩ hbounds
          · cases heq
            obtain ⟨s, hs, hinr⟩ := h.resolve_left hordered
            refine ⟨s, hs, fun h => ?_⟩
            obtain ⟨t, ht, hne⟩ := (hmade s hs.allowed).mp h hconverted
            exact hne (hinr t ht)

end

/-! ## The turns and the runs that raise -/

/-- The stage raises in this turn. -/
def TurnRaises (d : Db) (g : GroupStrategy) (kind : GroupKind) (pool : List NormalisedTransaction)
    (rejected : List (Id × Id)) (consumed : List Id) (single : NormalisedTransaction) : Prop :=
  ComesTo d g kind pool rejected consumed single
    (LinkRaises d g (kind.maxMembers g.config) single)

section

variable {d : Db} {g : GroupStrategy} {kind : GroupKind} {single : NormalisedTransaction}
  {pool internals externals : List NormalisedTransaction} {rejected : List (Id × Id)}
  {consumed : List Id} {outcome : GroupMatchOutcome} {st : GroupState} {s : Session}

/-- Settings with which the figures stay within the decimal context and the search accepts the
sizes. -/
structure GroupMatchConfig.Usable (config : GroupMatchConfig) : Prop where
  tolerance : 0 ≤ config.toleranceMinor
  percent : 0 < config.fxTolerancePercent
  split : 2 ≤ config.maxSplitMembers ∧ config.maxSplitMembers ≤ 50
  netted : 2 ≤ config.maxNettedMembers ∧ config.maxNettedMembers ≤ 50

theorem GroupMatchConfig.Usable.maxMembers (h : g.config.Usable) :
    2 ≤ kind.maxMembers g.config ∧ kind.maxMembers g.config ≤ 50 := by
  cases kind with
  | split => exact h.split
  | netted => exact h.netted

/-- The settings of a bank are usable when its percentage is positive. -/
theorem buildRuleStage_usable (defaultCalendar : String → BusinessCalendar)
    {bank : Option BankConfig} (hp : ∀ b, bank = some b → 0 < b.fxTolerancePercent) :
    (buildRuleStage defaultCalendar bank).group.Usable where
  tolerance := Int.natCast_nonneg _
  percent := by
    cases bank with
    | none => exact (by norm_num : (0 : Rat) < 3 / 2)
    | some b => exact hp b rfl
  split := (by decide : 2 ≤ 10 ∧ 10 ≤ 50)
  netted := (by decide : 2 ≤ 50 ∧ 50 ≤ 50)

theorem LevelWrite.rates {ok : MatchColumns → Prop} {w : RowWrite} (h : LevelWrite ok w) :
    (w.apply d).rates = d.rates := by
  cases w with
  | insertResult r => rfl
  | insertClaim c => rfl
  | claimResult c r => rfl
  | transactionStatus id status => rfl
  | insertAudit a => rfl
  | _ => exact h.elim

/-- When a turn raises: at the first link that settles nothing before, if that raises. -/
theorem groupSolve_error_iff (hconfig : g.config.Usable)
    (hsingle : Storable single) (hpool : ∀ t ∈ pool, Storable t)
    (hrates : ∀ r ∈ d.rates, 0 < r.rateInr) (hunused : single.id ∉ consumed) :
    (∃ e, (groupSolve g (kind.maxMembers g.config) pool rejected consumed outcome single).answer d =
      .error e) ↔ TurnRaises d g kind pool rejected consumed single := by
  have hstem : ∀ t ∈ single :: stemCandidates g rejected consumed single pool,
      Storable t := fun t ht => by
    rcases List.mem_cons.mp ht with rfl | ht
    · exact hsingle
    · exact hpool t (mem_stemCandidates.mp ht).2.inPool
  have hparty : ∀ t ∈ single :: partyCandidates g.config rejected consumed single pool,
      Storable t := fun t ht => by
    rcases List.mem_cons.mp ht with rfl | ht
    · exact hsingle
    · exact hpool t (mem_partyCandidates.mp ht).2.inPool
  have hfirst := @groupLink_error_iff d g (kind.maxMembers g.config) single _ .referenceStem 950
    outcome hstem hrates hconfig.maxMembers hconfig.tolerance hconfig.percent
  rw [TurnRaises, ComesTo, and_iff_right hunused, groupSolve_answer, ← hfirst]
  rcases hanswer : (groupLink g (kind.maxMembers g.config) single
    (stemCandidates g rejected consumed single pool) .referenceStem 950 outcome).answer d with
    e | first
  · exact iff_of_true ⟨e, rfl⟩ (Or.inl ⟨e, rfl⟩)
  · obtain ⟨solution, counted⟩ := first
    have hok : ¬ ∃ e, (Except.ok (solution, counted) : Except ReconError
        (Option GroupSolution × GroupMatchOutcome)) = .error e := by
      intro h
      obtain ⟨e, h⟩ := h
      cases h
    rw [or_iff_right hok]
    have hsecond := @groupLink_error_iff d g (kind.maxMembers g.config) single _ .counterparty 900
      counted hparty hrates hconfig.maxMembers hconfig.tolerance hconfig.percent
    cases solution with
    | none =>
      refine hsecond.trans (and_iff_right ?_).symm
      intro h
      obtain ⟨legs, s, solution, hnames⟩ := h
      have hsettled := (@groupLink_names d g _ single _ _ _ outcome _).mpr ⟨legs, s, hnames⟩
      rw [hanswer] at hsettled
      cases hsettled
    | some solution =>
      refine iff_of_false hok fun h => h.1 ?_
      obtain ⟨rfl, -⟩ := groupLink_some.mp hanswer
      obtain ⟨legs, s, hnames⟩ := groupLink_names.mp hanswer
      exact ⟨legs, s, solution, hnames⟩

/-- A turn returns unless the stage raises in it. -/
theorem groupTurn_returns_iff (hconfig : g.config.Usable)
    (hsingle : Storable single) (hpool : ∀ t ∈ pool, Storable t)
    (hrates : ∀ r ∈ s.view.rates, 0 < r.rateInr) :
    (groupTurn g kind pool rejected st single).wp (fun _ _ => True) (fun _ _ => False) s ↔
      ¬ TurnRaises s.view g kind pool rejected st.consumed single := by
  constructor
  · intro h hraises
    have hsolve : ∃ e, (groupSolve g (kind.maxMembers g.config) pool rejected st.consumed st.outcome
        single).answer s.view = .error e :=
      (groupSolve_error_iff hconfig hsingle hpool hrates hraises.1).mpr hraises
    obtain ⟨e, herror⟩ := hsolve
    have hfails : (groupTurn g kind pool rejected st single).wp (fun _ _ => False) (fun _ _ => True) s := by
      refine groupTurn_wp (fun hused => hraises.1 hused) (fun _ _ _ => trivial)
        (fun outcome hanswer => ?_) fun _ solution outcome hanswer => ?_
      · rw [herror] at hanswer
        cases hanswer
      · rw [herror] at hanswer
        cases hanswer
    have hboth := h.and hfails
    unfold wp at hboth
    split at hboth
    · exact hboth.2
    · exact hboth.1
  · intro hnot
    refine groupTurn_wp (fun _ => trivial) (fun hunused e hanswer => hnot ?_)
      (fun _ _ => trivial) fun _ solution outcome _ => ?_
    · exact (groupSolve_error_iff hconfig hsingle hpool hrates hunused).mp ⟨e, hanswer⟩
    · exact (groupRecord_total s).mono (fun _ _ _ => trivial) fun _ _ h => h

/-- **A run of the group stage returns exactly when it comes to no turn in which it raises.** -/
theorem groupRun_returns_iff (defaultCalendar : String → BusinessCalendar)
    {bank : Option BankConfig} (hbank : ∀ b, bank = some b → 0 < b.fxTolerancePercent)
    (hconfig : g.config = (buildRuleStage defaultCalendar bank).group)
    (hi : ∀ t ∈ internals, t.source = .internal) (he : ∀ t ∈ externals, t.source = .external)
    (hstorable : ∀ t ∈ internals ++ externals, Storable t)
    (hrates : ∀ r ∈ s.view.rates, 0 < r.rateInr) :
    (groupRun g internals externals).wp (fun _ _ => True) (fun _ _ => False) s ↔
      TurnsMeet g internals externals (fun kind st single s' => ¬ TurnRaises s'.view g kind
        (kind.pool internals externals) (s.view.rejectedPairs (ids internals)) st.consumed single)
        s := by
  have husable : g.config.Usable := hconfig ▸ buildRuleStage_usable defaultCalendar hbank
  -- The rates stay what they are.
  refine groupRun_returns (I := fun _ s' => s'.view.rates = s.view.rates)
    (fun kind single hsingle st s' hs' => ?_) rfl
  have hfaces : kind.Faces internals externals single (kind.pool internals externals) := by
    cases kind with
    | split => exact ⟨hsingle, hi single hsingle, rfl⟩
    | netted => exact ⟨hsingle, he single hsingle, rfl⟩
  have hone : Storable single := by
    cases kind with
    | split => exact hstorable single (List.mem_append_left _ hsingle)
    | netted => exact hstorable single (List.mem_append_right _ hsingle)
  have hpool : ∀ t ∈ kind.pool internals externals, Storable t := by
    intro t ht
    cases kind with
    | split => exact hstorable t (List.mem_append_right _ ht)
    | netted => exact hstorable t (List.mem_append_left _ ht)
  refine ⟨?_, groupTurn_returns_iff husable hone hpool (hs'.symm ▸ hrates)⟩
  refine ((groupTurn_stage hfaces).wp_keeps (f := fun d : Db => d.rates)
    (fun _ _ hw => LevelWrite.rates hw) s').mono (fun _ _ h => h.2.trans hs') fun _ _ _ => trivial

end

/-! ## A group without a foreign leg -/

/-- An invoice of 100 paise; its parts of 60 and 40 share their reference with a cent. -/
def mixedInvoice : NormalisedTransaction := partOf 1 .internal 100 "INR" "PAY-100"

def mixedParts : List NormalisedTransaction :=
  [partOf 2 .external 60 "INR" "PAY-100-1", partOf 3 .external 40 "INR" "PAY-100-2",
    partOf 4 .external 1 "USD" "PAY-100-3"]

/-- A matcher of a bank without settings, with a rate service. -/
def convertingMatcher : GroupStrategy :=
  { run := 0, config := (buildRuleStage (fun name => { name := name, holidays := [] }) none).group
    fx := true, audit := none }

/-- The day on which the dollar has this rate. -/
def dayWithRate (rateInr : Rat) (transactions : List NormalisedTransaction) : Session where
  committed :=
    { transactions := transactions
      rates := [{ currency := "USD", rateDate := 0, rateInr := rateInr, source := .rbi
                  suspect := false }] }
  supply := 6

/-- At 40 rupees the dollar the first part and the cent settle the invoice, and the run returns. -/
theorem groupRun_returns_iff_usd :
    let pool := [partOf 2 .external 60 "INR" "PAY-100-1", partOf 4 .external 1 "USD" "PAY-100-3"]
    TurnsMeet convertingMatcher [mixedInvoice] pool (fun kind st single s' =>
      ¬ TurnRaises s'.view convertingMatcher kind (kind.pool [mixedInvoice] pool)
        ((dayWithRate 40 (mixedInvoice :: pool)).view.rejectedPairs (ids [mixedInvoice])) st.consumed single)
      (dayWithRate 40 (mixedInvoice :: pool)) := by
  intro pool
  refine (@groupRun_returns_iff convertingMatcher _ _ _ (fun name => { name := name, holidays := [] })
    none (fun b hb => by cases hb) rfl (by decide) (by decide) (by decide +kernel) (fun r hr => ?_)).mp ?_
  · rw [List.mem_singleton.mp hr]
    norm_num
  · have hrun : ((groupRun convertingMatcher [mixedInvoice] pool).exec (dayWithRate 40 (mixedInvoice :: pool))).1 =
        .ok { splitGroups := 1, matchGroupIds := [9] } := by decide +kernel
    unfold wp
    split
    · trivial
    · rename_i h
      rw [h] at hrun
      cases hrun

/-- At 80 rupees it is the two parts in INR that settle it, and the run fails. -/
theorem mixedInvoice_raises : (∀ t ∈ mixedInvoice :: mixedParts, Storable t) ∧
    (∀ r ∈ (dayWithRate 80 (mixedInvoice :: mixedParts)).view.rates, 0 < r.rateInr) ∧
    ((groupRun convertingMatcher [mixedInvoice] mixedParts).exec (dayWithRate 80 (mixedInvoice :: mixedParts))).1 =
      .error (.indexError "list index out of range") := by
  refine ⟨by decide +kernel, fun r hr => ?_, by decide +kernel⟩
  rw [List.mem_singleton.mp hr]
  norm_num

end Recon
