import Mathlib.Data.List.Infix
import ReconEngine.Config.Registry
import ReconEngine.Exceptions.Classifier

/-!
# The configuration of a run

`RunService.execute` takes the settings of a bank from the live configurations, each at the moment
it needs it: the stale window first, then the configuration that goes into the metrics, the windows
and tolerances of matching, the rule stage, and a context for each of the classifier's passes. A
mapping that always shows the current state is read anew every time, so a hot swap between two
readings divides a run between two configurations.

**The law** (`one_configuration`): a run among swaps, edits and removals reads one configuration of
its bank as long as the live one does not change between its first reading and its last.

**What it does not establish.** That the metrics name the version which was used: they name the one
that was live when they were read, and in `configuration_divided` the two differ.
-/

set_option autoImplicit false

namespace Recon

/-! ## Readings of the live configurations -/

/-- A computation that reads the live configurations. -/
inductive LiveReads (α : Type) where
  | done (a : α)
  | read (next : List LoadedBankConfig → LiveReads α)

namespace LiveReads

variable {α β : Type}

def bind : LiveReads α → (α → LiveReads β) → LiveReads β
  | .done a, f => f a
  | .read next, f => .read fun view => (next view).bind f

instance : Monad LiveReads where
  pure := .done
  bind := .bind

/-- Whatever it reads, as long as each view satisfies `V`, it ends with a value that satisfies
`Q`. -/
def Yields (V : List LoadedBankConfig → Prop) (Q : α → Prop) : LiveReads α → Prop
  | .done a => Q a
  | .read next => ∀ view, V view → (next view).Yields V Q

/-- What two readings yield, one after the other. -/
theorem Yields.bind {V : List LoadedBankConfig → Prop} {P : α → Prop} {Q : β → Prop}
    {p : LiveReads α} {f : α → LiveReads β} (hp : p.Yields V P) (hf : ∀ a, P a → (f a).Yields V Q) :
    (p >>= f).Yields V Q := by
  show (p.bind f).Yields V Q
  induction p with
  | done a => exact hf a hp
  | read next ih => exact fun view hview => ih view (hp view hview)

theorem yields_pure {V : List LoadedBankConfig → Prop} {Q : α → Prop} {a : α} (h : Q a) :
    (pure a : LiveReads α).Yields V Q := h

end LiveReads

/-- `registry.loaded()`. -/
def loadedConfigs : LiveReads (List LoadedBankConfig) := .read .done

def bankEntry (view : List LoadedBankConfig) (bankCode : String) : Option LoadedBankConfig :=
  view.find? (·.config.bankCode = bankCode)

/-- `banks.get(bank_code)`. -/
def liveBank (bankCode : String) : LiveReads (Option BankConfig) := do
  let view ← loadedConfigs
  return (bankEntry view bankCode).map (·.config)

/-- `banks.get(bank_code) if banks else None`, when the mapping has `count` keys. -/
def testedBank (bankCode : String) (count : Nat) : LiveReads (Option BankConfig) :=
  if count = 0 then pure none else liveBank bankCode

/-- `len(banks)`, which is also how a mapping is tested. -/
def liveCount : LiveReads Nat := do
  let view ← loadedConfigs
  return view.length

/-! ## The settings of a run -/

/-- The settings that are not a bank's, and what is built with a bank's. -/
structure RunSettings where
  blocking : BlockingConfig
  amountToleranceMinor : Nat
  classifier : ExceptionClassifier

namespace RunSettings

variable (settings : RunSettings) (bankCode : String)

def staleAfterDays : LiveReads (Option Int) := do
  let config ← liveBank bankCode
  return config.map (·.reconciliationWindowDays)

def amountToleranceFor : LiveReads Nat := do
  let config ← liveBank bankCode
  return (config.map (·.amountToleranceMinor)).getD settings.amountToleranceMinor

/-- The blocking window of a bank with this stale window. -/
def blockingWith (window : Option Int) : BlockingConfig :=
  match window with
  | none => settings.blocking
  | some days => { settings.blocking with dateWindowDays := max 1 days }

def blockingFor : LiveReads BlockingConfig := do
  let window ← staleAfterDays bankCode
  return settings.blockingWith window

/-- The context of a pair analysis for a bank with this configuration. -/
def contextWith (d : Db) (bank : Option BankConfig) : PairContext :=
  { settings.classifier with banks := fun _ => bank }.pairContext d bankCode

/-- `_context`: the mapping is tested and then read. -/
def context (d : Db) : LiveReads PairContext := do
  let count ← liveCount
  let bank ← testedBank bankCode count
  return settings.contextWith bankCode d bank

end RunSettings

/-- The per-bank settings that a run has used, in the order it reads them. -/
structure UsedSettings where
  staleAfterDays : Option Int
  /-- The version and the hash that go into the metrics. -/
  recorded : Option (String × String)
  blocking : BlockingConfig
  amountToleranceMinor : Nat
  rules : RuleStageConfig
  unmatched : PairContext
  pendingReview : PairContext
  matched : PairContext

/-- The readings of `execute`. The second reading of all configurations is the one of
`sync_bank_configurations`, and the last one that of the anomaly service. -/
def executeReads (settings : RunSettings) (bankCode : String) (d : Db) : LiveReads UsedSettings := do
  let staleAfterDays ← RunSettings.staleAfterDays bankCode
  let live ← loadedConfigs
  let _ ← loadedConfigs
  let blocking ← settings.blockingFor bankCode
  let amountToleranceMinor ← settings.amountToleranceFor bankCode
  let bank ← liveBank bankCode
  let unmatched ← settings.context bankCode d
  let pendingReview ← settings.context bankCode d
  let matched ← settings.context bankCode d
  let _ ← liveCount
  return {
    staleAfterDays
    recorded := (bankEntry live bankCode).map fun item => (item.config.configVersion, item.sha256)
    blocking
    amountToleranceMinor
    rules := buildRuleStage settings.classifier.calendars bank
    unmatched
    pendingReview
    matched }

/-- The settings of a run that reads one configuration throughout. -/
def settingsOf (settings : RunSettings) (bankCode : String) (d : Db)
    (entry : Option LoadedBankConfig) : UsedSettings where
  staleAfterDays := entry.map (·.config.reconciliationWindowDays)
  recorded := entry.map fun item => (item.config.configVersion, item.sha256)
  blocking := settings.blockingWith (entry.map (·.config.reconciliationWindowDays))
  amountToleranceMinor :=
    (entry.map (·.config.amountToleranceMinor)).getD settings.amountToleranceMinor
  rules := buildRuleStage settings.classifier.calendars (entry.map (·.config))
  unmatched := settings.contextWith bankCode d (entry.map (·.config))
  pendingReview := settings.contextWith bankCode d (entry.map (·.config))
  matched := settings.contextWith bankCode d (entry.map (·.config))

/-! ## A run among hot swaps -/

/-- What a caller reads of the registry, once there is one: also while a check is going on. -/
def HotSwap.served (s : HotSwap) : Option (List LoadedBankConfig) :=
  match s.phase with
  | .absent | .starting | .constructing .. => none
  | .live r | .signing r _ | .loading r .. | .resigning r => some r.loaded

/-- A run and the registry it reads; `begun` once it has read anything. -/
structure ConfiguredRun where
  swap : HotSwap
  reads : LiveReads UsedSettings
  begun : Bool := false

/-- The registry or the directory takes a step, or the run takes its next reading. The check that a
reading may start with is among the steps before it. -/
inductive RunEvent where
  | swap (e : SwapEvent)
  | take

namespace ConfiguredRun

variable (reader : ConfigReader) (interval : Int)

def step (s : ConfiguredRun) : RunEvent → Option ConfiguredRun
  | .swap e => some { s with swap := s.swap.step reader interval e }
  | .take =>
    match s.reads, s.swap.served with
    | .read next, some view => some { s with reads := next view, begun := true }
    | _, _ => none

def run (s : ConfiguredRun) : List RunEvent → Option ConfiguredRun
  | [] => some s
  | e :: es => (s.step reader interval e).bind fun s' => s'.run es

/-- The run has more to read. -/
def isReading (s : ConfiguredRun) : Bool :=
  match s.reads with
  | .done _ => false
  | .read _ => true

/-- The bank's configuration that a caller reads. -/
def entry (s : ConfiguredRun) (bankCode : String) : Option (Option LoadedBankConfig) :=
  s.swap.served.map fun view => bankEntry view bankCode

/-- Between the first reading and the last, no step changes what is live for the bank. -/
def Steady (bankCode : String) : ConfiguredRun → List RunEvent → Prop
  | _, [] => True
  | s, e :: es => ∀ s', s.step reader interval e = some s' →
      (s.begun = true → s.isReading = true → s'.entry bankCode = s.entry bankCode) ∧
        s'.Steady bankCode es

/-- The settings come from one configuration that was live for the bank at some point. -/
def OneConfiguration (settings : RunSettings) (bankCode : String) (d : Db) (s : ConfiguredRun)
    (es : List RunEvent) (used : UsedSettings) : Prop :=
  ∃ pre s₁ entry, pre <+: es ∧ s.run reader interval pre = some s₁ ∧
    s₁.entry bankCode = some entry ∧ used = settingsOf settings bankCode d entry

end ConfiguredRun

/-! ## One configuration -/

section Readings

variable {settings : RunSettings} {bankCode : String} {d : Db} {entry : Option LoadedBankConfig}

/-- The view holds this configuration of the bank. -/
def Holds (bankCode : String) (entry : Option LoadedBankConfig) (view : List LoadedBankConfig) : Prop :=
  bankEntry view bankCode = entry

/-- A reading of the bank shows its live configuration. -/
theorem liveBank_yields :
    (liveBank bankCode).Yields (Holds bankCode entry) (· = entry.map (·.config)) := by
  intro view hview
  have hentry : bankEntry view bankCode = entry := hview
  show (bankEntry view bankCode).map (·.config) = entry.map (·.config)
  rw [hentry]

/-- With no configurations live, the bank has none. -/
theorem liveCount_yields :
    liveCount.Yields (Holds bankCode entry) fun count => count = 0 → entry = none := by
  intro view hview hcount
  rw [← hview, List.length_eq_zero_iff.mp hcount]
  rfl

/-- The window comes from the live configuration of the bank. -/
theorem staleAfterDays_yields : (RunSettings.staleAfterDays bankCode).Yields (Holds bankCode entry)
    (· = entry.map (·.config.reconciliationWindowDays)) := by
  refine liveBank_yields.bind fun config hconfig => LiveReads.yields_pure ?_
  rw [hconfig, Option.map_map]
  rfl

theorem amountToleranceFor_yields :
    (settings.amountToleranceFor bankCode).Yields (Holds bankCode entry)
      (· = (entry.map (·.config.amountToleranceMinor)).getD settings.amountToleranceMinor) := by
  refine liveBank_yields.bind fun config hconfig => LiveReads.yields_pure ?_
  rw [hconfig, Option.map_map]
  rfl

theorem blockingFor_yields : (settings.blockingFor bankCode).Yields (Holds bankCode entry)
    (· = settings.blockingWith (entry.map (·.config.reconciliationWindowDays))) :=
  staleAfterDays_yields.bind fun _ hwindow => LiveReads.yields_pure (congrArg _ hwindow)

/-- An empty mapping holds no configuration of the bank, so the test before the reading changes
nothing. -/
theorem context_yields : (settings.context bankCode d).Yields (Holds bankCode entry)
    (· = settings.contextWith bankCode d (entry.map (·.config))) := by
  refine liveCount_yields.bind fun count hcount => ?_
  have hbank : (testedBank bankCode count).Yields (Holds bankCode entry)
      (· = entry.map (·.config)) := by
    unfold testedBank
    split
    · rename_i hzero
      rw [hcount hzero]
      exact LiveReads.yields_pure rfl
    · exact liveBank_yields
  refine hbank.bind fun bank hread => LiveReads.yields_pure ?_
  rw [hread]

/-- A run that reads one configuration throughout has the settings of that configuration. -/
theorem executeReads_yields : (executeReads settings bankCode d).Yields (Holds bankCode entry)
    (· = settingsOf settings bankCode d entry) := by
  have hloaded : loadedConfigs.Yields (Holds bankCode entry) (Holds bankCode entry) :=
    fun _ hview => hview
  refine staleAfterDays_yields.bind fun stale hstale => ?_
  refine hloaded.bind fun live hlive => ?_
  refine hloaded.bind fun _ _ => ?_
  refine blockingFor_yields.bind fun blocking hblocking => ?_
  refine amountToleranceFor_yields.bind fun tolerance htolerance => ?_
  refine liveBank_yields.bind fun bank hbank => ?_
  refine context_yields.bind fun unmatched hunmatched => ?_
  refine context_yields.bind fun pending hpending => ?_
  refine context_yields.bind fun matched hmatched => ?_
  refine liveCount_yields.bind fun _ _ => LiveReads.yields_pure ?_
  have hentry : bankEntry live bankCode = entry := hlive
  rw [hstale, hentry, hblocking, htolerance, hbank, hunmatched, hpending, hmatched]
  rfl

end Readings

namespace ConfiguredRun

variable {reader : ConfigReader} {interval : Int} {settings : RunSettings} {bankCode : String}
  {d : Db} {s s' : ConfiguredRun}

/-- Before the first reading all is to be read; after it, what is left to read completes the
settings of the configuration that is live, as long as it stays. -/
def Consistent (settings : RunSettings) (bankCode : String) (d : Db) (s : ConfiguredRun)
    (entry : Option LoadedBankConfig) : Prop :=
  s.reads.Yields (Holds bankCode entry) (· = settingsOf settings bankCode d entry) ∧
    (s.isReading = true → s.entry bankCode = some entry)

/-- A step of a begun run. -/
theorem Consistent.step {entry : Option LoadedBankConfig} {e : RunEvent}
    (h : Consistent settings bankCode d s entry) (hbegun : s.begun = true)
    (hstep : s.step reader interval e = some s')
    (hsteady : s.begun = true → s.isReading = true → s'.entry bankCode = s.entry bankCode) :
    s'.begun = true ∧ Consistent settings bankCode d s' entry := by
  cases e with
  | swap e =>
    cases hstep
    exact ⟨hbegun, h.1, fun hreading => (hsteady hbegun hreading).trans (h.2 hreading)⟩
  | take =>
    unfold ConfiguredRun.step at hstep
    cases hreads : s.reads with
    | done used => rw [hreads] at hstep; cases hstep
    | read next =>
      cases hserved : s.swap.served with
      | none => rw [hreads, hserved] at hstep; cases hstep
      | some view =>
        rw [hreads, hserved] at hstep
        cases hstep
        have hlive : s.entry bankCode = some entry := h.2 (by unfold isReading; rw [hreads])
        have hview : Holds bankCode entry view := by
          rw [ConfiguredRun.entry, hserved] at hlive
          exact Option.some.inj hlive
        refine ⟨rfl, ?_, fun _ => hlive⟩
        have hyields := h.1
        rw [hreads] at hyields
        exact hyields view hview

/-- A run that began with a configuration reads the same one to its end, as long as it stays live.
-/
theorem Consistent.run {entry : Option LoadedBankConfig} : ∀ (es : List RunEvent)
    {s s' : ConfiguredRun}, Consistent settings bankCode d s entry → s.begun = true →
      s.Steady reader interval bankCode es → s.run reader interval es = some s' →
        Consistent settings bankCode d s' entry
  | [], s, s', h, _, _, hrun => by cases hrun; exact h
  | e :: es, s, s', h, hbegun, hsteady, hrun => by
    obtain ⟨t, hstep, hrest⟩ := Option.bind_eq_some_iff.mp hrun
    obtain ⟨hkeeps, hsteady⟩ := hsteady t hstep
    obtain ⟨hbegun, h⟩ := h.step hbegun hstep hkeeps
    exact Consistent.run es h hbegun hsteady hrest

/-- The first reading settles the configuration. -/
theorem first_take (hreads : s.reads = executeReads settings bankCode d)
    (hstep : s.step reader interval .take = some s') :
    ∃ entry, s.entry bankCode = some entry ∧ s'.begun = true ∧
      Consistent settings bankCode d s' entry := by
  have hyields : ∀ entry, s.reads.Yields (Holds bankCode entry)
      (· = settingsOf settings bankCode d entry) := by
    intro entry
    rw [hreads]
    exact executeReads_yields
  unfold ConfiguredRun.step at hstep
  cases hprog : s.reads with
  | done used => rw [hprog] at hstep; cases hstep
  | read next =>
    cases hserved : s.swap.served with
    | none => rw [hprog, hserved] at hstep; cases hstep
    | some view =>
      rw [hprog, hserved] at hstep
      cases hstep
      have hentry : s.entry bankCode = some (bankEntry view bankCode) := by
        rw [ConfiguredRun.entry, hserved]
        rfl
      refine ⟨bankEntry view bankCode, hentry, rfl, ?_, fun _ => hentry⟩
      have h := hyields (bankEntry view bankCode)
      rw [hprog] at h
      exact h view rfl

/-- **One run, one configuration**, when nothing changes what is live for the bank between the run's
first reading and its last: all its settings are those of one configuration that was live, and so
are the version and the hash it records. -/
theorem one_configuration {used : UsedSettings} : ∀ (es : List RunEvent) {s s' : ConfiguredRun},
    s.reads = executeReads settings bankCode d → s.Steady reader interval bankCode es →
      s.run reader interval es = some s' → s'.reads = .done used →
        OneConfiguration reader interval settings bankCode d s es used
  | [], s, s', hreads, _, hrun, hdone => by
    cases hrun
    rw [hreads] at hdone
    cases hdone
  | .swap e :: es, s, s', hreads, hsteady, hrun, hdone => by
    -- Up to the first reading nothing is settled, and the swaps may do what they like.
    obtain ⟨t, hstep, hrest⟩ := Option.bind_eq_some_iff.mp hrun
    have hreads' : t.reads = executeReads settings bankCode d := by cases hstep; exact hreads
    obtain ⟨pre, s₁, entry, hpre, hrun₁, hentry, hused⟩ :=
      one_configuration es hreads' (hsteady t hstep).2 hrest hdone
    refine ⟨.swap e :: pre, s₁, entry, List.cons_prefix_cons.mpr ⟨rfl, hpre⟩, ?_, hentry, hused⟩
    exact Option.bind_eq_some_iff.mpr ⟨t, hstep, hrun₁⟩
  | .take :: es, s, s', hreads, hsteady, hrun, hdone => by
    obtain ⟨t, hstep, hrest⟩ := Option.bind_eq_some_iff.mp hrun
    obtain ⟨entry, hentry, hbegun, h⟩ := first_take hreads hstep
    have hlast := Consistent.run es h hbegun (hsteady t hstep).2 hrest
    refine ⟨[], s, entry, List.nil_prefix, rfl, hentry, ?_⟩
    have hyields := hlast.1
    rw [hdone] at hyields
    exact hyields

/-! ## A swap before a run and a swap in it -/

/-- The stale window is three days in version 1.0.0 and five days in any other. -/
def windowConfig (version : String) : BankConfig where
  bankCode := "AXIS"
  configVersion := version
  timezone := "Asia/Kolkata"
  settlementCycle := "T+1"
  reconciliationWindowDays := if version = "1.0.0" then 3 else 5

def windowReader : ConfigReader where
  parse raw := match String.fromUTF8? raw with
    | some version => .ok (windowConfig version)
    | none => .error "invalid start byte"
  sha256 := HotSwap.versionReader.sha256

def windowEntry (version : String) : LoadedBankConfig where
  config := windowConfig version
  path := "axis.yaml"
  sha256 := "0000000000000000000000000000000000000000000000000000000000000000"

def daySettings : RunSettings where
  blocking := { amountBucketWidthMinor := 10000, dateWindowDays := 2 }
  amountToleranceMinor := 1
  classifier := { shippedService with
    banks := fun _ => none, calendars := fun name => { name, holidays := [] }, hasFx := true }

/-- Version 1.0.0 is live and the file has been rewritten. -/
def rewritten : ConfiguredRun where
  swap := { directory := [HotSwap.bankFile "1.1.0" 2],
            phase := .live ⟨[windowEntry "1.0.0"], signature [HotSwap.bankFile "1.0.0" 1], 0, none⟩ }
  reads := executeReads daySettings "AXIS" {}

/-- A due check that takes the new file up. -/
def hotSwap : List RunEvent := [.swap (.access 10), .swap (.read true 10), .swap (.read true 10)]

def swapFirst : List RunEvent := hotSwap ++ List.replicate 13 .take

/-- The swap comes after the stale window has been read. -/
def swapWithin : List RunEvent := [.take] ++ hotSwap ++ List.replicate 12 .take

/-- What the run has used of the window, and what it has recorded. -/
def windowAndVersion (s : ConfiguredRun) : Option (Option Int × Option String) :=
  match s.reads with
  | .done used => some (used.staleAfterDays, used.recorded.map (·.1))
  | .read _ => none

/-- No check comes after the first reading. -/
theorem steady_takes {bankCode : String} : ∀ (n : Nat) (s : ConfiguredRun),
    s.Steady reader interval bankCode (List.replicate n .take)
  | 0, _ => trivial
  | n + 1, s => by
    intro s' hstep
    refine ⟨fun _ _ => ?_, steady_takes n s'⟩
    simp only [ConfiguredRun.step] at hstep
    split at hstep
    · cases hstep
      rfl
    · cases hstep

theorem steady_swapFirst : rewritten.Steady windowReader 2 "AXIS" swapFirst := by
  intro s₁ h₁
  cases h₁
  refine ⟨fun hbegun => absurd hbegun (by decide), fun s₂ h₂ => ?_⟩
  cases h₂
  refine ⟨fun hbegun => absurd hbegun (by decide), fun s₃ h₃ => ?_⟩
  cases h₃
  exact ⟨fun hbegun => absurd hbegun (by decide), steady_takes 13 _⟩

theorem one_configuration_swapFirst : ∃ s' used,
    rewritten.run windowReader 2 swapFirst = some s' ∧ s'.reads = .done used ∧
      used.staleAfterDays = some 5 ∧
        OneConfiguration windowReader 2 daySettings "AXIS" {} rewritten swapFirst used := by
  have hcheck : (rewritten.run windowReader 2 swapFirst).bind windowAndVersion =
      some (some 5, some "1.1.0") := by decide +kernel
  obtain ⟨s', hrun, hs'⟩ := Option.bind_eq_some_iff.mp hcheck
  cases hreads : s'.reads with
  | read next => rw [windowAndVersion, hreads] at hs'; cases hs'
  | done used =>
    rw [windowAndVersion, hreads] at hs'
    exact ⟨s', used, hrun, hreads, (Prod.mk.inj (Option.some.inj hs')).1,
      one_configuration swapFirst rfl steady_swapFirst hrun hreads⟩

/-- A run that a swap divides: the window is that of one version and the record that of another. -/
theorem configuration_divided :
    ¬ ∀ (reader : ConfigReader) (interval : Int) (settings : RunSettings) (bankCode : String) (d : Db)
      (s s' : ConfiguredRun) (es : List RunEvent) (used : UsedSettings),
      s.reads = executeReads settings bankCode d → s.run reader interval es = some s' →
        s'.reads = .done used → OneConfiguration reader interval settings bankCode d s es used := by
  intro h
  have hcheck : (rewritten.run windowReader 2 swapWithin).bind windowAndVersion =
      some (some 3, some "1.1.0") := by decide +kernel
  obtain ⟨s', hrun, hs'⟩ := Option.bind_eq_some_iff.mp hcheck
  cases hreads : s'.reads with
  | read next => rw [windowAndVersion, hreads] at hs'; cases hs'
  | done used =>
    rw [windowAndVersion, hreads] at hs'
    obtain ⟨hwindow, hversion⟩ := Prod.mk.inj (Option.some.inj hs')
    obtain ⟨pre, s₁, entry, hpre, hrun₁, hentry, rfl⟩ :=
      h windowReader 2 daySettings "AXIS" {} rewritten s' swapWithin used rfl hrun hreads
    -- Only two configurations are ever live, and neither has both.
    have hall : ∀ pre ∈ swapWithin.inits, ∀ e ∈ (rewritten.run windowReader 2 pre).bind
        (·.entry "AXIS"), e = some (windowEntry "1.0.0") ∨ e = some (windowEntry "1.1.0") := by
      decide +kernel
    have hone := hall pre ((List.mem_inits _ _).mpr hpre) entry (by rw [hrun₁]; exact hentry)
    rcases hone with rfl | rfl
    · exact absurd hversion (by decide)
    · exact absurd hwindow (by decide)

end ConfiguredRun

end Recon
