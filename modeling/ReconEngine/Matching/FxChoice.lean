import ReconEngine.Matching.Fx
import Mathlib.Data.Prod.Lex

/-!
# The choice of a rate

`pick_quote` takes two minima with different keys, and falls back from the second to the first.

**The law** (`pickQuote_spec`): they come to one minimum. Of the rates in the window the quote is the
one that is least by flag, age and rank of its source, so a suspect rate is used only where there is
no clean one; and as no two rates of a day share their source, the order of the rows does not matter.

**What it does not establish.** That a rate of the window is right for its day: a rate that was
taken over from an earlier day counts with its age. The window is the caller's.
-/

set_option autoImplicit false

namespace Recon

/-! ## The least by a key -/

section LeastBy

variable {α κ : Type} [LinearOrder κ] {le : α → α → Bool} {key : α → κ}

/-- The least row has the least key. -/
theorem leastBy_key_le (hle : ∀ a b, le a b = true ↔ key a ≤ key b) :
    ∀ {rows : List α} {best : α}, leastBy le rows = some best → ∀ row ∈ rows, key best ≤ key row := by
  have hfold : ∀ (rest : List α) (first : α), ∀ row ∈ first :: rest,
      key (rest.foldl (fun best row => if le best row then best else row) first) ≤ key row := by
    intro rest
    induction rest with
    | nil =>
      intro first row hrow
      rw [List.mem_singleton.mp hrow]
      exact le_refl _
    | cons next rest ih =>
      intro first row hrow
      rw [List.foldl_cons]
      by_cases hkeep : le first next = true
      · rw [if_pos hkeep]
        rcases List.mem_cons.mp hrow with rfl | hrow
        · exact ih row row List.mem_cons_self
        · rcases List.mem_cons.mp hrow with rfl | hrow
          · exact (ih first first List.mem_cons_self).trans ((hle _ _).mp hkeep)
          · exact ih first row (List.mem_cons_of_mem _ hrow)
      · rw [if_neg hkeep]
        rcases List.mem_cons.mp hrow with rfl | hrow
        · have hless : key next ≤ key row := (not_le.mp (mt (hle _ _).mpr hkeep)).le
          exact (ih next next List.mem_cons_self).trans hless
        · exact ih next row hrow
  intro rows best h
  cases rows with
  | nil => cases h
  | cons first rest =>
    obtain rfl := Option.some.inj h
    exact hfold rest first

/-- There is a least one unless there are none. -/
theorem leastBy_eq_none {rows : List α} : leastBy le rows = none ↔ rows = [] := by
  cases rows <;> simp [leastBy]

end LeastBy

/-! ## Keys of rates -/

theorem FxSource.rank_injective : Function.Injective FxSource.rank := by
  intro a b h
  cases a <;> cases b <;> first | rfl | cases h

namespace FxRate

/-- The rate is of the day, or at most so many days older. -/
def InWindow (day : Date) (maxStaleDays : Int) (r : FxRate) : Prop :=
  0 ≤ day - r.rateDate ∧ day - r.rateDate ≤ maxStaleDays

instance (day : Date) (maxStaleDays : Int) (r : FxRate) : Decidable (r.InWindow day maxStaleDays) :=
  inferInstanceAs (Decidable (_ ∧ _))

/-- Clean before suspect, then by age, then by the source hierarchy. -/
def key (day : Date) (r : FxRate) : Bool ×ₗ Int ×ₗ Nat :=
  toLex (r.suspect, toLex (day - r.rateDate, r.source.rank))

/-- The key of the first minimum. -/
def latestKey (r : FxRate) : Int ×ₗ Bool ×ₗ Nat :=
  toLex (-r.rateDate, toLex (r.suspect, r.source.rank))

/-- The key of the second. -/
def cleanKey (r : FxRate) : Int ×ₗ Nat := toLex (-r.rateDate, r.source.rank)

/-- The order of the rows is that of a key. -/
theorem before_iff (a b : FxRate) : a.before b = true ↔ a.latestKey ≤ b.latestKey := by
  have hrank : (compare a.source.rank b.source.rank).isLE = true ↔
      a.source.rank ≤ b.source.rank := Nat.isLE_compare
  have hsuspect : (compare a.suspect b.suspect = .lt ↔ a.suspect < b.suspect) ∧
      (compare a.suspect b.suspect = .eq ↔ a.suspect = b.suspect) := by
    cases a.suspect <;> cases b.suspect <;> decide
  simp only [before, latestKey, Prod.Lex.toLex_le_toLex, Ordering.isLE_then_iff_or,
    Int.compare_eq_lt, Int.compare_eq_eq, neg_lt_neg_iff, neg_inj, hsuspect.1, hsuspect.2, hrank,
    eq_comm (a := b.rateDate)]

theorem beforeClean_iff (a b : FxRate) : a.beforeClean b = true ↔ a.cleanKey ≤ b.cleanKey := by
  have hrank : (compare a.source.rank b.source.rank).isLE = true ↔
      a.source.rank ≤ b.source.rank := Nat.isLE_compare
  simp only [beforeClean, cleanKey, Prod.Lex.toLex_le_toLex, Ordering.isLE_then_iff_or,
    Int.compare_eq_lt, Int.compare_eq_eq, neg_lt_neg_iff, neg_inj, hrank,
    eq_comm (a := b.rateDate)]

/-- Suspect rates come after clean ones, whatever their age. -/
theorem key_le_key (day : Date) (a b : FxRate) : a.key day ≤ b.key day ↔
    a.suspect < b.suspect ∨ a.suspect = b.suspect ∧ a.cleanKey ≤ b.cleanKey := by
  simp only [key, cleanKey, Prod.Lex.toLex_le_toLex, sub_lt_sub_iff_left, sub_right_inj,
    neg_lt_neg_iff, neg_inj]

/-- Against a clean rate, the second key says what the whole key says. -/
theorem key_le_of_cleanKey_le {day : Date} {a b : FxRate} (ha : a.suspect = false)
    (h : a.cleanKey ≤ b.cleanKey) : a.key day ≤ b.key day := by
  rw [key_le_key]
  cases hb : b.suspect with
  | false => exact Or.inr ⟨ha, h⟩
  | true => exact Or.inl (by simp [ha])

/-- The first key says what the whole key says where the flag does not decide against it. -/
theorem key_le_of_latestKey_le {day : Date} {a b : FxRate} (hab : a.suspect ≤ b.suspect)
    (h : a.latestKey ≤ b.latestKey) : a.key day ≤ b.key day := by
  rw [key_le_key]
  simp only [latestKey, cleanKey, Prod.Lex.toLex_le_toLex] at h ⊢
  rcases hab.lt_or_eq with hlt | heq
  · exact Or.inl hlt
  · rcases h with hdate | ⟨hdate, hlt | ⟨-, hrank⟩⟩
    · exact Or.inr ⟨heq, Or.inl hdate⟩
    · exact Or.inl hlt
    · exact Or.inr ⟨heq, Or.inr ⟨hdate, hrank⟩⟩

/-- Two rates with one key are of one date and one source. -/
theorem same_of_key_eq {day : Date} {a b : FxRate} (h : a.key day = b.key day) :
    a.rateDate = b.rateDate ∧ a.source = b.source := by
  simp only [key, EmbeddingLike.apply_eq_iff_eq, Prod.mk.injEq, sub_right_inj] at h
  exact ⟨h.2.1, FxSource.rank_injective h.2.2⟩

end FxRate

/-! ## The two minima are one -/

section

variable {rows : List FxRate} {day : Date} {maxStaleDays : Int}

/-- The rates in the window. -/
def eligibleRates (rows : List FxRate) (day : Date) (maxStaleDays : Int) : List FxRate :=
  rows.filter fun r => 0 ≤ day - r.rateDate && day - r.rateDate ≤ maxStaleDays

theorem mem_eligibleRates {r : FxRate} :
    r ∈ eligibleRates rows day maxStaleDays ↔ r ∈ rows ∧ r.InWindow day maxStaleDays := by
  simp [eligibleRates, FxRate.InWindow]

/-- The second minimum stands in for a suspect first one where there is one. -/
theorem pickQuote_eq (rows : List FxRate) (day : Date) (maxStaleDays : Int) :
    pickQuote rows day maxStaleDays =
      (leastBy FxRate.before (eligibleRates rows day maxStaleDays)).map fun best =>
        (if best.suspect then
          (leastBy FxRate.beforeClean
            ((eligibleRates rows day maxStaleDays).filter (!·.suspect))).getD best
        else best).quoteOn day := by
  unfold pickQuote eligibleRates
  dsimp only
  generalize (rows.filter fun r =>
    0 ≤ day - r.rateDate && day - r.rateDate ≤ maxStaleDays) = eligible
  cases leastBy FxRate.before eligible with
  | none => rfl
  | some best =>
    cases hsuspect : best.suspect with
    | false => simp [hsuspect]
    | true => cases leastBy FxRate.beforeClean (eligible.filter (!·.suspect)) <;> simp [hsuspect]

/-- What `pick_quote` picks is a rate in the window with the least key. -/
theorem pickQuote_least {q : FxQuote} (h : pickQuote rows day maxStaleDays = some q) :
    ∃ r ∈ rows, r.InWindow day maxStaleDays ∧ q = r.quoteOn day ∧
      ∀ other ∈ rows, other.InWindow day maxStaleDays → r.key day ≤ other.key day := by
  rw [pickQuote_eq] at h
  obtain ⟨best, hbest, rfl⟩ := Option.map_eq_some_iff.mp h
  obtain ⟨hmem, hwindow⟩ := mem_eligibleRates.mp (leastBy_mem hbest)
  have hleast := leastBy_key_le FxRate.before_iff hbest
  cases hsuspect : best.suspect with
  | false =>
    refine ⟨best, hmem, hwindow, rfl, fun other hother hin => ?_⟩
    have hle := hleast other (mem_eligibleRates.mpr ⟨hother, hin⟩)
    exact FxRate.key_le_of_latestKey_le (hsuspect ▸ Bool.false_le _) hle
  | true =>
    rw [if_pos rfl]
    cases hclean : leastBy FxRate.beforeClean
        ((eligibleRates rows day maxStaleDays).filter (!·.suspect)) with
    | none =>
      have hall : ∀ r ∈ eligibleRates rows day maxStaleDays, r.suspect = true := by
        have hnil := leastBy_eq_none.mp hclean
        simpa using List.filter_eq_nil_iff.mp hnil
      refine ⟨best, hmem, hwindow, rfl, fun other hother hin => ?_⟩
      have hin := mem_eligibleRates.mpr ⟨hother, hin⟩
      exact FxRate.key_le_of_latestKey_le (by rw [hsuspect, hall other hin]) (hleast other hin)
    | some chosen =>
      obtain ⟨hchosen, hflag⟩ := List.mem_filter.mp (leastBy_mem hclean)
      have hflag : chosen.suspect = false := by simpa using hflag
      obtain ⟨hrow, hin⟩ := mem_eligibleRates.mp hchosen
      refine ⟨chosen, hrow, hin, rfl, fun other hother hotherin => ?_⟩
      cases hdirty : other.suspect with
      | false =>
        have hmem' : other ∈ (eligibleRates rows day maxStaleDays).filter (!·.suspect) :=
          List.mem_filter.mpr ⟨mem_eligibleRates.mpr ⟨hother, hotherin⟩, by simp [hdirty]⟩
        exact FxRate.key_le_of_cleanKey_le hflag
          (leastBy_key_le FxRate.beforeClean_iff hclean other hmem')
      | true => exact (FxRate.key_le_key _ _ _).mpr (Or.inl (by simp [hflag, hdirty]))

/-- There is no quote only where the window is empty. -/
theorem pickQuote_eq_none : pickQuote rows day maxStaleDays = none ↔
    ∀ r ∈ rows, ¬ r.InWindow day maxStaleDays := by
  rw [pickQuote_eq, Option.map_eq_none_iff, leastBy_eq_none, List.eq_nil_iff_forall_not_mem]
  simp only [mem_eligibleRates, not_and]

/-- At most one rate for a date and a source. -/
def OneRateEach (rows : List FxRate) : Prop :=
  rows.Pairwise fun a b => ¬ (a.rateDate = b.rateDate ∧ a.source = b.source)

/-- With one rate for a date and a source, it is the only one. -/
theorem pickQuote_eq_some (hone : OneRateEach rows) {q : FxQuote} :
    pickQuote rows day maxStaleDays = some q ↔
      ∃ r ∈ rows, r.InWindow day maxStaleDays ∧ q = r.quoteOn day ∧
        ∀ other ∈ rows, other.InWindow day maxStaleDays → other ≠ r →
          r.key day < other.key day := by
  have hkey : ∀ a ∈ rows, ∀ b ∈ rows, a.key day = b.key day → a = b := by
    intro a ha b hb h
    by_contra hne
    have hsymm : Std.Symm fun a b : FxRate => ¬ (a.rateDate = b.rateDate ∧ a.source = b.source) :=
      ⟨fun a b hab hba => hab ⟨hba.1.symm, hba.2.symm⟩⟩
    exact hone.forall ha hb hne (FxRate.same_of_key_eq h)
  constructor
  · intro h
    obtain ⟨r, hr, hin, hq, hleast⟩ := pickQuote_least h
    refine ⟨r, hr, hin, hq, fun other hother hotherin hne => ?_⟩
    exact lt_of_le_of_ne (hleast other hother hotherin) fun heq => hne (hkey _ hr _ hother heq).symm
  · rintro ⟨r, hr, hin, rfl, hleast⟩
    cases hpick : pickQuote rows day maxStaleDays with
    | none => exact absurd hin (pickQuote_eq_none.mp hpick r hr)
    | some q =>
      obtain ⟨chosen, hchosen, hchosenin, rfl, hle⟩ := pickQuote_least hpick
      by_cases hsame : chosen = r
      · rw [hsame]
      · exact absurd (hleast chosen hchosen hchosenin hsame) (not_lt.mpr (hle r hr hin))

/-- **The lexicographic best.** With at most one rate for a date and a source, there is a quote
exactly when a rate lies in the window, it is the quote of the least of these, it is suspect only
when all of them are, and the order of the rows is of no account. -/
theorem pickQuote_spec (hone : OneRateEach rows) (day : Date) (maxStaleDays : Int) :
    (pickQuote rows day maxStaleDays = none ↔ ∀ r ∈ rows, ¬ r.InWindow day maxStaleDays) ∧
      (∀ q, pickQuote rows day maxStaleDays = some q ↔
        ∃ r ∈ rows, r.InWindow day maxStaleDays ∧ q = r.quoteOn day ∧
          ∀ other ∈ rows, other.InWindow day maxStaleDays → other ≠ r →
            r.key day < other.key day) ∧
      (∀ q, pickQuote rows day maxStaleDays = some q → q.suspect = true →
        ∀ r ∈ rows, r.InWindow day maxStaleDays → r.suspect = true) ∧
      ∀ others : List FxRate, others.Perm rows →
        pickQuote others day maxStaleDays = pickQuote rows day maxStaleDays := by
  refine ⟨pickQuote_eq_none, fun q => pickQuote_eq_some hone, ?_, ?_⟩
  · intro q hq hsuspect r hr hin
    obtain ⟨chosen, -, -, rfl, hleast⟩ := pickQuote_least hq
    have hchosen : chosen.suspect = true := hsuspect
    rcases (FxRate.key_le_key _ _ _).mp (hleast r hr hin) with hlt | ⟨heq, -⟩
    · rw [hchosen] at hlt
      exact absurd hlt (by simp)
    · exact heq ▸ hchosen
  · intro others hperm
    have hothers : OneRateEach others := by
      refine (hperm.pairwise_iff ?_).mpr hone
      exact fun hab hba => hab ⟨hba.1.symm, hba.2.symm⟩
    ext q
    rw [pickQuote_eq_some hone, pickQuote_eq_some hothers]
    simp only [hperm.mem_iff]

end

/-- A clean rate of the day before is used, not the suspect rate of the day. -/
theorem pickQuote_spec_cleanBefore :
    pickQuote [⟨"USD", 14, 83, .fbil, false⟩, ⟨"USD", 15, 98, .rbi, true⟩] 15 3 =
      some ⟨"USD", 83, "FBIL", 14, 1, false⟩ := by
  have hone : OneRateEach [⟨"USD", 14, 83, .fbil, false⟩, ⟨"USD", 15, 98, .rbi, true⟩] := by
    simp [OneRateEach]
  refine ((pickQuote_spec hone 15 3).2.1 _).mpr
    ⟨⟨"USD", 14, 83, .fbil, false⟩, List.mem_cons_self, by decide, by decide, ?_⟩
  decide

end Recon
