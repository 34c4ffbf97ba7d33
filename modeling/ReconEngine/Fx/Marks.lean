import ReconEngine.Fx.Loader
import ReconEngine.Ingestion.DateNotation
import ReconEngine.Ingestion.DecimalNotation
import ReconEngine.Numeric.Places

/-!
# Which rates are marked

**The law of marks** (`parseFxCsv_flags`): for rates of at most twelve places, a rate is marked
exactly if its exact deviation from the exact median is more than the percentage; that the loader
computes in the decimal context makes no difference.

**The law of the majority** (`parseFxCsv_majority`): where more than half of the rates of a currency
and source lie in an interval, every rate is marked that is too far from all of the interval, and
none that is near all of it, whatever the other rates are.

**What they do not establish.** That a marked rate is wrong, or that one which is not marked is
right: where most rates of a file are wrong, it is the others that are marked. A rate that is the
only one of its currency and source is its own median.
-/

set_option autoImplicit false

namespace Recon

open Numeric

/-! ## The decimal context makes no difference -/

/-- A decimal with few places is kept. -/
theorem rounded_of_places (whole : Nat) {places : Nat} {x : Rat} (hx : HasPlaces places x)
    (hsize : |x| ≤ 10 ^ whole) (h : whole + places ≤ contextPrecision) : rounded x = x :=
  roundDigits_of_representable (by unfold contextPrecision; omega) (hx.representable hsize h)

/-- The middle of two rates. -/
def midpoint (a b : Rat) : Rat := (a + b) / 2

section

variable {a b x y : Rat}

/-- A rate that can be loaded, of at most so many places. -/
structure PlainRate (places : Nat) (x : Rat) : Prop where
  pos : 0 < x
  atMost : x ≤ maxFxRate
  places : HasPlaces places x

theorem PlainRate.midpoint (ha : PlainRate 12 a) (hb : PlainRate 12 b) :
    PlainRate 13 (midpoint a b) where
  pos := by
    have := add_pos ha.pos hb.pos
    unfold Recon.midpoint
    linarith
  atMost := by
    have := add_le_add ha.atMost hb.atMost
    unfold Recon.midpoint
    linarith
  places := (ha.places.add hb.places).half

theorem PlainRate.succ {places : Nat} (h : PlainRate places x) : PlainRate (places + 1) x :=
  ⟨h.pos, h.atMost, h.places.succ⟩

/-- The middle of two rates is computed exactly. -/
theorem rounded_midpoint (ha : PlainRate 12 a) (hb : PlainRate 12 b) :
    rounded (rounded (a + b) / 2) = midpoint a b := by
  have hmax : maxFxRate = 1000000 := rfl
  have hsum : rounded (a + b) = a + b := by
    apply rounded_of_places 7 (ha.places.add hb.places)
    · have h₁ := ha.atMost
      have h₂ := hb.atMost
      rw [abs_of_pos (add_pos ha.pos hb.pos)]
      rw [hmax] at h₁ h₂
      linarith
    · decide
  have hmid := ha.midpoint hb
  rw [hsum]
  apply rounded_of_places 6 hmid.places
  · rw [abs_of_pos hmid.pos]
    exact hmid.atMost.trans (by rw [hmax]; norm_num)
  · decide

/-- The difference of two rates is computed exactly; only the quotient is rounded. -/
theorem fxDeviation_eq (hx : PlainRate 13 x) (hy : PlainRate 13 y) :
    fxDeviation x y = rounded (|x - y| / y) * 100 := by
  have hdifference : HasPlaces 13 (x - y) := hx.places.sub hy.places
  have hsize : |x - y| ≤ 10 ^ 6 := by
    have hmax : maxFxRate = 1000000 := rfl
    have h₁ := hx.atMost
    have h₂ := hy.atMost
    have h₃ := hx.pos
    have h₄ := hy.pos
    rw [hmax] at h₁ h₂
    rw [abs_le]
    constructor <;> linarith
  have hinner : rounded |rounded (x - y)| = |x - y| := by
    rw [rounded_of_places 6 hdifference hsize (by decide)]
    apply rounded_of_places 6 hdifference.abs _ (by decide)
    rw [abs_abs]
    exact hsize
  have hshift := rounded_shift (rounded (|x - y| / y)) 2
  have hhundred : (10 : Rat) ^ (2 : Int) = 100 := by norm_num
  rw [hhundred] at hshift
  have hkept : rounded (rounded (|x - y| / y)) = rounded (|x - y| / y) :=
    roundDigits_of_representable (by decide) (representable_roundDigits contextPrecision _)
  rw [fxDeviation, hinner, hshift, hkept]

/-- The comparison comes out as the exact one. -/
theorem lt_fxDeviation_iff {percent : Nat} (hpercent : percent < 10 ^ 9) (hx : PlainRate 13 x)
    (hy : PlainRate 13 y) :
    (percent : Rat) < fxDeviation x y ↔ (percent : Rat) / 100 * y < |x - y| := by
  have hsize : y ≤ 10 ^ 6 := hy.atMost.trans (by unfold maxFxRate; norm_num)
  have hexact := lt_roundDigits_div_iff contextPrecision percent
    (hx.places.sub hy.places).abs hy.places hy.pos hsize (by decide) (by
      unfold contextPrecision
      omega)
  have hscale : (percent : Rat) < rounded (|x - y| / y) * 100 ↔
      (percent : Rat) / 100 < rounded (|x - y| / y) := by
    rw [div_lt_iff₀ (by norm_num)]
  rw [fxDeviation_eq hx hy, hscale, ← lt_div_iff₀ hy.pos]
  exact hexact

end

/-! ## Marks are exact -/

/-- A rate is too far from the median of its currency and source. -/
def TooFar (percent : Rat) (rates : List ParsedFxRate) (r : ParsedFxRate) : Prop :=
  minPoints ≤ (seriesRates rates r).length ∧ ∃ mid, median midpoint (seriesRates rates r) = some mid ∧
    percent / 100 * mid < |r.rateInr - mid|

section

variable {lib : FxLibrary} {percent : Nat} {text : String} {result : FxLoadResult}

/-- The rates of a series are rates of the file. -/
theorem seriesRates_plain {rates : List ParsedFxRate} {places : Nat}
    (h : ∀ r ∈ rates, PlainRate places r.rateInr) (r : ParsedFxRate) :
    ∀ x ∈ seriesRates rates r, PlainRate places x := by
  intro x hx
  obtain ⟨other, hother, rfl⟩ := List.mem_map.mp hx
  exact h other (List.mem_of_mem_filter hother)

theorem median_plain {values : List Rat} {mid : Rat} (h : ∀ x ∈ values, PlainRate 12 x)
    (hmid : median midpoint values = some mid) : PlainRate 13 mid := by
  rcases median_mem hmid with hmem | hbetween
  · exact (h mid hmem).succ
  · obtain ⟨a, ha, b, hb, rfl⟩ := hbetween
    exact (h a ha).midpoint (h b hb)

/-- The median that the loader computes in the context is the exact one. -/
theorem fileMedian_eq {rates : List ParsedFxRate} {r : ParsedFxRate}
    (h : ∀ r ∈ rates, PlainRate 12 r.rateInr) :
    fileMedian rates r = if minPoints ≤ (seriesRates rates r).length then
      median midpoint (seriesRates rates r) else none := by
  have hplain := seriesRates_plain h r
  unfold fileMedian
  dsimp only
  have hbetween : ∀ a ∈ seriesRates rates r, ∀ b ∈ seriesRates rates r,
      rounded (rounded (a + b) / 2) = midpoint a b :=
    fun a ha b hb => rounded_midpoint (hplain a ha) (hplain b hb)
  rw [median_congr hbetween]

/-- **The law of marks.** For rates of at most twelve places, a rate is marked exactly if its exact
deviation from the exact median is more than the percentage. -/
theorem parseFxCsv_flags (h : parseFxCsv lib percent text = .ok result) (hpercent : percent < 10 ^ 9)
    (hplaces : ∀ r ∈ result.rates, HasPlaces 12 r.rateInr) :
    ∀ r ∈ result.rates, r.suspect = true ↔ TooFar percent result.rates r := by
  obtain ⟨header, rows, -, rfl⟩ := parseFxCsv_eq_ok h
  dsimp only at hplaces ⊢
  have hloaded := @loadFxRows_accepted lib (fxFields lib header) rows
  generalize (loadFxRows lib (fxFields lib header) rows).rates = rates at hplaces hloaded ⊢
  have hplain : ∀ r ∈ rates, PlainRate 12 r.rateInr := by
    intro r hr
    obtain ⟨suspect, reason, hsame⟩ := flagOutlier_same percent rates r
    have hplace := hplaces _ (List.mem_map_of_mem hr)
    rw [hsame] at hplace
    exact ⟨(hloaded hr).1.pos, (hloaded hr).1.atMost, hplace⟩
  intro r hr
  obtain ⟨other, hother, hseries, hrate, hsuspect⟩ :=
    mem_flagOutliers hr fun other hother => (hloaded hother).2
  unfold TooFar
  rw [hsuspect, seriesRates_flagOutliers, ← hseries, ← hrate, fileMedian_eq hplain]
  have hvalues := seriesRates_plain hplain other
  constructor
  · intro hfar
    obtain ⟨mid, hmid, hfar⟩ := hfar
    split at hmid
    · rename_i hpoints
      exact ⟨hpoints, mid, hmid, (lt_fxDeviation_iff hpercent (hplain other hother).succ
        (median_plain hvalues hmid)).mp hfar⟩
    · cases hmid
  · intro hfar
    obtain ⟨hpoints, mid, hmid, hfar⟩ := hfar
    rw [if_pos hpoints]
    exact ⟨mid, hmid, (lt_fxDeviation_iff hpercent (hplain other hother).succ
      (median_plain hvalues hmid)).mpr hfar⟩

/-! ## The majority decides -/

/-- More than half of the rates of the series lie in the interval. -/
def Majority (rates : List ParsedFxRate) (r : ParsedFxRate) (low high : Rat) : Prop :=
  (seriesRates rates r).length <
    2 * (seriesRates rates r).countP fun rate => low ≤ rate ∧ rate ≤ high

theorem midpoint_mem_Icc {low high : Rat} :
    ∀ a ∈ Set.Icc low high, ∀ b ∈ Set.Icc low high, midpoint a b ∈ Set.Icc low high := by
  intro a ha b hb
  unfold midpoint
  constructor
  · linarith [ha.1, hb.1]
  · linarith [ha.2, hb.2]

/-- What lies far from all of an interval is too far from the median, and what lies near all of it is
not. -/
theorem tooFar_of_majority {rates : List ParsedFxRate} {r : ParsedFxRate} {percent low high : Rat}
    (hpercent : 0 ≤ percent) (hrate : 0 < r.rateInr) (hlow : 0 < low)
    (hpoints : minPoints ≤ (seriesRates rates r).length)
    (hmajority : Majority rates r low high) :
    (r.rateInr < low * (1 - percent / 100) ∨ high * (1 + percent / 100) < r.rateInr →
      TooFar percent rates r) ∧
    (high * (1 - percent / 100) ≤ r.rateInr ∧ r.rateInr ≤ low * (1 + percent / 100) →
      ¬ TooFar percent rates r) := by
  have hne : seriesRates rates r ≠ [] := by
    intro hnil
    rw [hnil] at hpoints
    cases hpoints
  obtain ⟨mid, hmid⟩ := Option.isSome_iff_exists.mp (median_isSome midpoint hne)
  obtain ⟨habove, hbelow⟩ := median_mem_Icc hmid hmajority midpoint_mem_Icc
  have hq : 0 ≤ percent / 100 := by positivity
  unfold TooFar
  generalize percent / 100 = q at hq ⊢
  constructor
  · intro hfar
    refine ⟨hpoints, mid, hmid, ?_⟩
    rw [lt_abs]
    rcases hfar with hunder | hover
    · right
      have hscale : 0 < 1 - q := (pos_iff_pos_of_mul_pos (hrate.trans hunder)).mp hlow
      have hless := hunder.trans_le (mul_le_mul_of_nonneg_right habove hscale.le)
      linarith
    · left
      have hless := (mul_le_mul_of_nonneg_right hbelow (by linarith : 0 ≤ 1 + q)).trans_lt hover
      linarith
  · intro hnear hfar
    obtain ⟨hunder, hover⟩ := hnear
    obtain ⟨-, mid', hmid', hfar⟩ := hfar
    obtain rfl := Option.some.inj (hmid.symm.trans hmid')
    have hupper := hover.trans (mul_le_mul_of_nonneg_right habove (by linarith : 0 ≤ 1 + q))
    have hlower : mid * (1 - q) ≤ r.rateInr := by
      rcases le_or_gt 0 (1 - q) with hscale | hscale
      · exact (mul_le_mul_of_nonneg_right hbelow hscale).trans hunder
      · have hneg := mul_neg_of_pos_of_neg (hlow.trans_le habove) hscale
        linarith
    rw [lt_abs] at hfar
    rcases hfar with h | h <;> linarith

/-- **The law of the majority.** Where more than half of at least three rates of a series lie in an
interval, a rate of the series is marked if it is too far from all of the interval, and is not if it
is near all of it. -/
theorem parseFxCsv_majority (h : parseFxCsv lib percent text = .ok result)
    (hpercent : percent < 10 ^ 9) (hplaces : ∀ r ∈ result.rates, HasPlaces 12 r.rateInr)
    {r : ParsedFxRate} (hr : r ∈ result.rates) {low high : Rat} (hlow : 0 < low)
    (hpoints : minPoints ≤ (seriesRates result.rates r).length)
    (hmajority : Majority result.rates r low high) :
    (r.rateInr < low * (1 - percent / 100) ∨ high * (1 + percent / 100) < r.rateInr →
      r.suspect = true) ∧
    (high * (1 - percent / 100) ≤ r.rateInr ∧ r.rateInr ≤ low * (1 + percent / 100) →
      r.suspect = false) := by
  have hflags := parseFxCsv_flags h hpercent hplaces r hr
  obtain ⟨-, -, -, -, haccepted⟩ := parseFxCsv_lines h
  obtain ⟨hfar, hnear⟩ := tooFar_of_majority (Nat.cast_nonneg percent) (haccepted r hr).pos hlow
    hpoints hmajority
  exact ⟨fun hout => hflags.mpr (hfar hout),
    fun hin => Bool.eq_false_iff.mpr fun hmarked => hnear hin (hflags.mp hmarked)⟩

end

/-! A file with a rate whose point is in the wrong place, and a row that is not a rate. -/

/-- The library as far as the file needs it. -/
def fxReading : FxLibrary where
  strptime := strptimeDay fun _ _ => none
  zoneInfo _ := none
  decimal := readDecimal
  upper := String.toUpper
  lower := String.toLower
  isAlpha := Char.isAlpha

def plantedFile : String :=
  "Date,Currency,Rate\n2026-03-13,USD,83.10\n2026-03-14, usd ,83.25\n2026-03-15,USD,8.331\n" ++
    "2026-03-16,USD,none\n"

theorem planted_isOk : (parseFxCsv fxReading (5 : Nat) plantedFile).isOk = true := by
  decide +kernel

theorem planted_columns {result : FxLoadResult}
    (h : parseFxCsv fxReading (5 : Nat) plantedFile = .ok result) :
    (result.rates.map fun r => (r.currency, r.source, r.rateInr)) =
      [("USD", .rbi, 831 / 10), ("USD", .rbi, 333 / 4), ("USD", .rbi, 8331 / 1000)] := by
  have hread : Csv.readRowsFrom ',' {} (bufferLinesFrom [] plantedFile.toList) =
      (["Date", "Currency", "Rate"] :: [["2026-03-13", "USD", "83.10"],
        ["2026-03-14", " usd ", "83.25"], ["2026-03-15", "USD", "8.331"],
        ["2026-03-16", "USD", "none"]], none) := by
    decide +kernel
  obtain ⟨header, rows, hrows, rfl⟩ := parseFxCsv_eq_ok h
  cases hread.symm.trans hrows
  rw [map_flagOutliers fun _ _ _ => rfl]
  decide +kernel

theorem planted_rates {result : FxLoadResult}
    (h : parseFxCsv fxReading (5 : Nat) plantedFile = .ok result) :
    result.rates.length = 3 ∧ ∀ r ∈ result.rates,
      seriesRates result.rates r = [831 / 10, 333 / 4, 8331 / 1000] ∧
      (r.rateInr = 831 / 10 ∨ r.rateInr = 333 / 4 ∨ r.rateInr = 8331 / 1000) := by
  have hcolumns := planted_columns h
  constructor
  · have hlength := congrArg List.length hcolumns
    rwa [List.length_map] at hlength
  · intro r hr
    have hcolumn := List.mem_map_of_mem
      (f := fun r : ParsedFxRate => (r.currency, r.source, r.rateInr)) hr
    rw [hcolumns] at hcolumn
    simp only [List.mem_cons, List.not_mem_nil, or_false, Prod.mk.injEq] at hcolumn
    rw [seriesRates_eq, hcolumns]
    rcases hcolumn with hrow | hrow | hrow <;> obtain ⟨hcurrency, hsource, hrate⟩ := hrow <;>
      rw [hcurrency, hsource, hrate] <;> constructor <;> simp

theorem planted_places {result : FxLoadResult}
    (h : parseFxCsv fxReading (5 : Nat) plantedFile = .ok result) :
    ∀ r ∈ result.rates, HasPlaces 12 r.rateInr := by
  intro r hr
  rcases ((planted_rates h).2 r hr).2 with heq | heq | heq
  · exact ⟨83100000000000, by rw [heq]; norm_num⟩
  · exact ⟨83250000000000, by rw [heq]; norm_num⟩
  · exact ⟨8331000000000, by rw [heq]; norm_num⟩

theorem parseFxCsv_flags_planted : ∃ result,
    parseFxCsv fxReading (5 : Nat) plantedFile = .ok result ∧ result.rates.length = 3 ∧
      ∀ r ∈ result.rates, r.suspect = true ↔ TooFar (5 : Nat) result.rates r := by
  cases h : parseFxCsv fxReading (5 : Nat) plantedFile with
  | error e =>
    have hok := planted_isOk
    rw [h] at hok
    cases hok
  | ok result =>
    exact ⟨result, rfl, (planted_rates h).1,
      parseFxCsv_flags h (by norm_num) (planted_places h)⟩

theorem parseFxCsv_majority_planted : ∃ result,
    parseFxCsv fxReading (5 : Nat) plantedFile = .ok result ∧ result.rates.length = 3 ∧
      ∀ r ∈ result.rates, r.suspect = true ↔ r.rateInr = 8331 / 1000 := by
  cases h : parseFxCsv fxReading (5 : Nat) plantedFile with
  | error e =>
    have hok := planted_isOk
    rw [h] at hok
    cases hok
  | ok result =>
    obtain ⟨hlength, hrates⟩ := planted_rates h
    refine ⟨result, rfl, hlength, ?_⟩
    intro r hr
    obtain ⟨hseries, hrate⟩ := hrates r hr
    have hpoints : minPoints ≤ (seriesRates result.rates r).length := by
      rw [hseries]
      exact Nat.le_refl 3
    have hmajority : Majority result.rates r 83 84 := by
      unfold Majority
      rw [hseries]
      decide +kernel
    obtain ⟨hfar, hnear⟩ := parseFxCsv_majority h (by norm_num) (planted_places h) hr
      (by norm_num) hpoints hmajority
    rcases hrate with heq | heq | heq
    · rw [hnear (by rw [heq]; norm_num), heq]
      norm_num
    · rw [hnear (by rw [heq]; norm_num), heq]
      norm_num
    · rw [hfar (by rw [heq]; norm_num), heq]
      norm_num

end Recon
