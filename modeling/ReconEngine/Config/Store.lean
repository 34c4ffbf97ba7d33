import ReconEngine.Config.Registry

/-!
# The table of bank configurations

`sync_bank_configurations` records which configuration of each bank is live: a row for each version
a bank ever had, keyed by content hash, and at most one active row for each bank. It goes through
the banks the registry holds; the rows of a bank it does not hold are not looked at.

What is active after a call is therefore exactly what is live when no bank with an active row has
left the registry, and never otherwise.

**The law** (`SyncRun.mirrors_live`): in every history of loadings and calls, each call does what it
should if and only if each is `Covered`, that is, finds no active row of a bank that the registry
has lost. What it should do is `Lawful`: the active rows are then the live configurations, a version
has one row, and a second call changes nothing.

**What it does not establish.** What an active row is used for: a run goes by the registry, and the
table is read by the administration alone.
-/

set_option autoImplicit false

namespace Recon

open Store.Prog hiding pure bind

inductive ConfigChangeKind where
  | added
  | updated
  | reactivated
deriving DecidableEq, Repr

def ConfigChangeKind.text : ConfigChangeKind → String
  | .added => "ADDED"
  | .updated => "UPDATED"
  | .reactivated => "REACTIVATED"

def ConfigChangeKind.lower : ConfigChangeKind → String
  | .added => "added"
  | .updated => "updated"
  | .reactivated => "reactivated"

structure ConfigChange where
  bankCode : String
  kind : ConfigChangeKind
  fromVersion : Option String
  toVersion : String
  toSha256 : String
deriving DecidableEq, Repr

/-- The entry that a change leaves in the audit trail. -/
def ConfigChange.event (c : ConfigChange) (loadedBy : String) (now : Instant) : AuditEvent where
  chainId := configChain
  actorType := if "system:".toList.isPrefixOf loadedBy.toList then "SYSTEM" else "USER"
  actorId := loadedBy
  actionType := "CONFIG_CHANGE"
  affectedRecords := .dict [(.str "bank_code", .str c.bankCode)]
  rationale := c.bankCode ++ " configuration " ++ c.kind.lower
  occurredAt := { utc := now }
  beforeState := .dict [(.str "config_version", (c.fromVersion.map .str).getD .none)]
  afterState := .dict [(.str "config_version", .str c.toVersion),
    (.str "content_sha256", .str c.toSha256), (.str "change", .str c.kind.text)]

namespace Db

def activeConfiguration (d : Db) (bankCode : String) : Option BankConfiguration :=
  d.configurations.find? fun r => r.bankCode = bankCode ∧ r.isActive

def configurationVersion (d : Db) (bankCode sha256 : String) : Option BankConfiguration :=
  d.configurations.find? fun r => r.bankCode = bankCode ∧ r.contentSha256 = sha256

/-- No other row has the version of `c`. -/
def versionFree (d : Db) (c : BankConfiguration) : Bool :=
  d.configurations.all fun r =>
    r.id = c.id ∨ ¬ (r.bankCode = c.bankCode ∧ r.contentSha256 = c.contentSha256)

/-- No other row is active for the bank of `c`. -/
def bankFree (d : Db) (c : BankConfiguration) : Bool :=
  d.configurations.all fun r => r.id = c.id ∨ ¬ (r.bankCode = c.bankCode ∧ r.isActive)

end Db

/-- The unique constraint on versions and the unique index on active rows, for a row about to be
active. -/
def indexConfiguration (c : BankConfiguration) : Prog Unit := do
  lockRow (.configuration c.bankCode)
  let d ← tables
  require (d.versionFree c) (.integrity "uq_bank_configurations_version")
  require (d.bankFree c) (.integrity "ux_bank_configurations_one_active_per_bank")

/-- The row that was active is no longer. -/
def retireConfiguration : Option BankConfiguration → Prog Unit
  | some active => put (.updateConfiguration { active with isActive := false })
  | none => return

/-- Make the live version the active one: its earlier row when there is one, a new row
otherwise. -/
def activateConfiguration (item : LoadedBankConfig) (loadedBy : String) (now : Instant)
    (active : Option BankConfiguration) : Prog ConfigChangeKind := do
  let d ← tables
  match d.configurationVersion item.config.bankCode item.sha256 with
  | some existing => do
    let row := { existing with isActive := true, loadedBy := loadedBy, loadedAt := now }
    indexConfiguration row
    put (.updateConfiguration row)
    return .reactivated
  | none => do
    let id ← newId
    let row : BankConfiguration :=
      { id := id, bankCode := item.config.bankCode, configVersion := item.config.configVersion
        contentSha256 := item.sha256, isActive := true, loadedBy := loadedBy, loadedAt := now }
    indexConfiguration row
    put (.insertConfiguration row)
    return if active.isSome then .updated else .added

/-- One turn of the loop. -/
def syncBank (logger : AuditLogger) (loadedBy : String) (now : Instant)
    (changes : List ConfigChange) (item : LoadedBankConfig) : Prog (List ConfigChange) := do
  let d ← tables
  let active := d.activeConfiguration item.config.bankCode
  if active.map (·.contentSha256) = some item.sha256 then return changes
  else do
    retireConfiguration active
    let kind ← activateConfiguration item loadedBy now active
    let change : ConfigChange :=
      { bankCode := item.config.bankCode, kind := kind
        fromVersion := active.map (·.configVersion), toVersion := item.config.configVersion
        toSha256 := item.sha256 }
    let _ ← logger.append (change.event loadedBy now)
    return changes ++ [change]

/-- `sync_bank_configurations`, with what the registry holds live. -/
def syncBankConfigurations (logger : AuditLogger) (loaded : List LoadedBankConfig)
    (loadedBy : String) (now : Instant) : Prog (List ConfigChange) :=
  (loaded.insertionSort fun a b => a.config.bankCode ≤ b.config.bankCode).foldlM
    (syncBank logger loadedBy now) []

/-! ## The registry holds each bank once -/

/-- A file whose bank was loaded before makes the loading fail, so banks are distinct. -/
theorem loadFiles_distinct {reader : ConfigReader} :
    ∀ (files : List (String × ByteArray)) (loaded : List LoadedBankConfig)
      {result : List LoadedBankConfig},
      (loaded.map (·.config.bankCode)).Nodup → loadFiles reader files loaded = .ok result →
      (result.map (·.config.bankCode)).Nodup
  | [], loaded, result, hloaded, h => by
    cases h
    exact hloaded
  | (path, raw) :: files, loaded, result, hloaded, h => by
    unfold loadFiles at h
    cases hparse : reader.parse raw with
    | error e =>
      rw [hparse] at h
      cases h
    | ok config =>
      rw [hparse] at h
      change (if _ then _ else _) = _ at h
      split at h
      · cases h
      · rename_i hnew
        refine loadFiles_distinct files _ ?_ h
        rw [List.map_append, List.map_singleton]
        refine List.nodup_append.mpr ⟨hloaded, List.nodup_singleton _, ?_⟩
        intro a ha b hb hab
        obtain ⟨item, hitem, rfl⟩ := List.mem_map.mp ha
        rw [List.mem_singleton.mp hb] at hab
        exact hnew (List.any_eq_true.mpr ⟨item, hitem, decide_eq_true hab⟩)

/-- What a directory is loaded as holds each bank once. -/
theorem loadDirectory_distinct {reader : ConfigReader} {directory : Directory}
    {loaded : List LoadedBankConfig} (h : loadDirectory reader directory = .ok loaded) :
    (loaded.map (·.config.bankCode)).Nodup :=
  loadFiles_distinct _ [] List.nodup_nil h

/-! ## Versions -/

/-- The configuration `sha256` of the bank is recorded as active. -/
def ActiveVersion (rows : List BankConfiguration) (bankCode sha256 : String) : Prop :=
  ∃ r ∈ rows, r.bankCode = bankCode ∧ r.contentSha256 = sha256 ∧ r.isActive = true

/-- A table as the constraints keep it, its identifiers below `supply`. -/
structure ConfigurationsOk (supply : Nat) (rows : List BankConfiguration) : Prop where
  ids : (rows.map (·.id)).Nodup
  below : ∀ r ∈ rows, r.id < supply
  versions : ∀ r ∈ rows, ∀ r' ∈ rows, r.bankCode = r'.bankCode →
    r.contentSha256 = r'.contentSha256 → r = r'
  active : ∀ r ∈ rows, ∀ r' ∈ rows, r.bankCode = r'.bankCode → r.isActive = true →
    r'.isActive = true → r = r'

section

variable {supply : Nat} {rows : List BankConfiguration} {old c : BankConfiguration}

theorem ConfigurationsOk.nil : ConfigurationsOk supply [] :=
  ⟨List.nodup_nil, by simp, by simp, by simp⟩

theorem ConfigurationsOk.mono (h : ConfigurationsOk supply rows) {supply' : Nat}
    (hle : supply ≤ supply') : ConfigurationsOk supply' rows :=
  { h with below := fun r hr => Nat.lt_of_lt_of_le (h.below r hr) hle }

/-- A row replaced by one with its identifier. -/
def replaceRow (rows : List BankConfiguration) (c : BankConfiguration) : List BankConfiguration :=
  Store.updateIn (·.id) [c.id] (fun _ => c) rows

/-- A row takes the place of the one with its identifier. -/
theorem mem_replaceRow (h : ConfigurationsOk supply rows) (hold : old ∈ rows) (hid : c.id = old.id)
    {r : BankConfiguration} : r ∈ replaceRow rows c ↔ r = c ∨ (r ∈ rows ∧ r ≠ old) := by
  rw [replaceRow, Store.mem_updateIn]
  constructor
  · rintro ⟨row, hrow, rfl⟩
    split
    · exact .inl rfl
    · rename_i hne
      refine .inr ⟨hrow, fun heq => hne ?_⟩
      rw [heq, hid]
      exact List.mem_singleton_self _
  · rintro (rfl | ⟨hr, hne⟩)
    · exact ⟨old, hold, if_pos (by rw [hid]; exact List.mem_singleton_self _)⟩
    · refine ⟨r, hr, if_neg fun hmem => hne ?_⟩
      rw [List.mem_singleton, hid] at hmem
      exact Store.eq_of_key_eq h.ids hr hold hmem

theorem map_id_replaceRow (rows : List BankConfiguration) (c : BankConfiguration) :
    (replaceRow rows c).map (·.id) = rows.map (·.id) := by
  rw [replaceRow, Store.updateIn, List.map_map]
  refine List.map_congr_left fun r _ => ?_
  dsimp only [Function.comp_apply]
  split
  · rename_i hmem
    exact (List.mem_singleton.mp hmem).symm
  · rfl

/-- Retiring the active row of a bank. -/
theorem ConfigurationsOk.retire (h : ConfigurationsOk supply rows) (hold : old ∈ rows)
    (hactive : old.isActive = true) :
    ConfigurationsOk supply (replaceRow rows { old with isActive := false }) ∧
      ∀ bankCode sha256, ActiveVersion (replaceRow rows { old with isActive := false }) bankCode
        sha256 ↔ ActiveVersion rows bankCode sha256 ∧ bankCode ≠ old.bankCode := by
  have hmem : ∀ r, r ∈ replaceRow rows { old with isActive := false } ↔
      r = { old with isActive := false } ∨ (r ∈ rows ∧ r ≠ old) := fun r =>
    mem_replaceRow (c := { old with isActive := false }) h hold rfl
  refine ⟨⟨?_, ?_, ?_, ?_⟩, fun bankCode sha256 => ⟨?_, ?_⟩⟩
  · rw [map_id_replaceRow]
    exact h.ids
  · intro r hr
    rcases (hmem r).mp hr with rfl | ⟨hr, -⟩
    · exact h.below old hold
    · exact h.below r hr
  · intro r hr r' hr' hbank hsha
    rcases (hmem r).mp hr with rfl | ⟨hm, hne⟩ <;> rcases (hmem r').mp hr' with rfl | ⟨hm', hne'⟩
    · rfl
    · exact absurd (h.versions old hold r' hm' hbank hsha).symm hne'
    · exact absurd (h.versions r hm old hold hbank hsha) hne
    · exact h.versions r hm r' hm' hbank hsha
  · intro r hr r' hr' hbank ha ha'
    rcases (hmem r).mp hr with rfl | ⟨hr, -⟩
    · cases ha
    · rcases (hmem r').mp hr' with rfl | ⟨hr', -⟩
      · cases ha'
      · exact h.active r hr r' hr' hbank ha ha'
  · rintro ⟨r, hr, rfl, rfl, ha⟩
    rcases (hmem r).mp hr with rfl | ⟨hr, hne⟩
    · cases ha
    · exact ⟨⟨r, hr, rfl, rfl, ha⟩, fun hbank => hne (h.active r hr old hold hbank ha hactive)⟩
  · rintro ⟨⟨r, hr, rfl, rfl, ha⟩, hbank⟩
    refine ⟨r, (hmem r).mpr (.inr ⟨hr, ?_⟩), rfl, rfl, ha⟩
    rintro rfl
    exact hbank rfl

/-- Reactivating a version of a bank that has no active row. -/
theorem ConfigurationsOk.reactivate (h : ConfigurationsOk supply rows) (hold : old ∈ rows)
    (hnone : ∀ r ∈ rows, r.bankCode = old.bankCode → r.isActive = false) (hid : c.id = old.id)
    (hbank : c.bankCode = old.bankCode) (hsha : c.contentSha256 = old.contentSha256)
    (hactive : c.isActive = true) :
    ConfigurationsOk supply (replaceRow rows c) ∧
      ∀ bankCode sha256, ActiveVersion (replaceRow rows c) bankCode sha256 ↔
        ActiveVersion rows bankCode sha256 ∨
          (bankCode = c.bankCode ∧ sha256 = c.contentSha256) := by
  have hmem : ∀ r, r ∈ replaceRow rows c ↔ _ := fun r => mem_replaceRow h hold hid
  refine ⟨⟨?_, ?_, ?_, ?_⟩, fun bankCode sha256 => ⟨?_, ?_⟩⟩
  · rw [map_id_replaceRow]
    exact h.ids
  · intro r hr
    rcases (hmem r).mp hr with rfl | ⟨hr, -⟩
    · rw [hid]
      exact h.below old hold
    · exact h.below r hr
  · intro r hr r' hr' hb hs
    rcases (hmem r).mp hr with rfl | ⟨hm, hne⟩ <;> rcases (hmem r').mp hr' with rfl | ⟨hm', hne'⟩
    · rfl
    · exact absurd (h.versions r' hm' old hold (hb ▸ hbank) (hs ▸ hsha)) hne'
    · exact absurd (h.versions r hm old hold (hb.trans hbank) (hs.trans hsha)) hne
    · exact h.versions r hm r' hm' hb hs
  · intro r hr r' hr' hb ha ha'
    rcases (hmem r).mp hr with rfl | ⟨hm, -⟩ <;> rcases (hmem r').mp hr' with rfl | ⟨hm', -⟩
    · rfl
    · rw [hnone r' hm' (hb ▸ hbank)] at ha'
      cases ha'
    · rw [hnone r hm (hb.trans hbank)] at ha
      cases ha
    · exact h.active r hm r' hm' hb ha ha'
  · rintro ⟨r, hr, rfl, rfl, ha⟩
    rcases (hmem r).mp hr with rfl | ⟨hr, -⟩
    · exact .inr ⟨rfl, rfl⟩
    · exact .inl ⟨r, hr, rfl, rfl, ha⟩
  · rintro (⟨r, hr, rfl, rfl, ha⟩ | ⟨rfl, rfl⟩)
    · refine ⟨r, (hmem r).mpr (.inr ⟨hr, ?_⟩), rfl, rfl, ha⟩
      rintro rfl
      rw [hnone r hr rfl] at ha
      cases ha
    · exact ⟨c, (hmem c).mpr (.inl rfl), rfl, rfl, hactive⟩

/-- A new version of a bank that has no active row. -/
theorem ConfigurationsOk.insert (h : ConfigurationsOk supply rows)
    (hnew : ∀ r ∈ rows, ¬ (r.bankCode = c.bankCode ∧ r.contentSha256 = c.contentSha256))
    (hnone : ∀ r ∈ rows, r.bankCode = c.bankCode → r.isActive = false) (hid : c.id = supply)
    (hactive : c.isActive = true) :
    ConfigurationsOk (supply + 1) (rows ++ [c]) ∧
      ∀ bankCode sha256, ActiveVersion (rows ++ [c]) bankCode sha256 ↔
        ActiveVersion rows bankCode sha256 ∨
          (bankCode = c.bankCode ∧ sha256 = c.contentSha256) := by
  have hmem : ∀ r, r ∈ rows ++ [c] ↔ r ∈ rows ∨ r = c := fun r => by
    rw [List.mem_append, List.mem_singleton]
  refine ⟨⟨?_, ?_, ?_, ?_⟩, fun bankCode sha256 => ⟨?_, ?_⟩⟩
  · rw [List.map_append, List.map_singleton]
    refine List.nodup_append.mpr ⟨h.ids, List.nodup_singleton _, ?_⟩
    intro a ha b hb hab
    obtain ⟨r, hr, rfl⟩ := List.mem_map.mp ha
    rw [List.mem_singleton.mp hb, hid] at hab
    exact absurd hab (Nat.ne_of_lt (h.below r hr))
  · intro r hr
    rcases (hmem r).mp hr with hr | rfl
    · exact Nat.lt_succ_of_lt (h.below r hr)
    · rw [hid]
      exact Nat.lt_succ_self supply
  · intro r hr r' hr' hb hs
    rcases (hmem r).mp hr with hm | rfl <;> rcases (hmem r').mp hr' with hm' | rfl
    · exact h.versions r hm r' hm' hb hs
    · exact absurd ⟨hb, hs⟩ (hnew r hm)
    · exact absurd ⟨hb.symm, hs.symm⟩ (hnew r' hm')
    · rfl
  · intro r hr r' hr' hb ha ha'
    rcases (hmem r).mp hr with hm | rfl <;> rcases (hmem r').mp hr' with hm' | rfl
    · exact h.active r hm r' hm' hb ha ha'
    · rw [hnone r hm hb] at ha
      cases ha
    · rw [hnone r' hm' hb.symm] at ha'
      cases ha'
    · rfl
  · rintro ⟨r, hr, rfl, rfl, ha⟩
    rcases (hmem r).mp hr with hr | rfl
    · exact .inl ⟨r, hr, rfl, rfl, ha⟩
    · exact .inr ⟨rfl, rfl⟩
  · rintro (⟨r, hr, rfl, rfl, ha⟩ | ⟨rfl, rfl⟩)
    · exact ⟨r, (hmem r).mpr (.inl hr), rfl, rfl, ha⟩
    · exact ⟨c, (hmem c).mpr (.inr rfl), rfl, rfl, hactive⟩

end

/-! ## One bank -/

section

variable {logger : AuditLogger} {loadedBy : String} {now : Instant} {item : LoadedBankConfig}
  {changes : List ConfigChange} {s : Session}

/-- What is found as active is a row of the bank, and active. -/
theorem activeConfiguration_some {d : Db} {bankCode : String} {r : BankConfiguration}
    (h : d.activeConfiguration bankCode = some r) :
    r ∈ d.configurations ∧ r.bankCode = bankCode ∧ r.isActive = true :=
  ⟨List.mem_of_find?_eq_some h, by simpa using List.find?_some h⟩

/-- Where nothing is found, no row of the bank is active. -/
theorem activeConfiguration_none {d : Db} {bankCode : String}
    (h : d.activeConfiguration bankCode = none) :
    ∀ r ∈ d.configurations, r.bankCode = bankCode → r.isActive = false := by
  intro r hr hbank
  have hno := List.find?_eq_none.mp h r hr
  rw [decide_eq_true_eq] at hno
  exact Bool.eq_false_iff.mpr fun ha => hno ⟨hbank, ha⟩

/-- The bank has no active row afterwards; the other banks keep theirs. -/
theorem retireConfiguration_spec (h : ConfigurationsOk s.supply s.view.configurations)
    (bankCode : String) :
    (retireConfiguration (s.view.activeConfiguration bankCode)).wp
      (fun _ s' => ConfigurationsOk s'.supply s'.view.configurations ∧
        ∀ b sha256, ActiveVersion s'.view.configurations b sha256 ↔
          ActiveVersion s.view.configurations b sha256 ∧ b ≠ bankCode)
      (fun _ _ => True) s := by
  cases hactive : s.view.activeConfiguration bankCode with
  | none =>
    refine ⟨h, fun b sha256 => ⟨?_, And.left⟩⟩
    rintro ⟨r, hr, rfl, rfl, ha⟩
    refine ⟨⟨r, hr, rfl, rfl, ha⟩, fun hbank => ?_⟩
    rw [activeConfiguration_none hactive r hr hbank] at ha
    cases ha
  | some old =>
    obtain ⟨hold, rfl, ha⟩ := activeConfiguration_some hactive
    rw [retireConfiguration, wp_put, Store.Session.supply_write, Store.Session.view_write]
    exact h.retire hold ha

theorem configurationVersion_some {d : Db} {bankCode sha256 : String} {r : BankConfiguration}
    (h : d.configurationVersion bankCode sha256 = some r) :
    r ∈ d.configurations ∧ r.bankCode = bankCode ∧ r.contentSha256 = sha256 :=
  ⟨List.mem_of_find?_eq_some h, by simpa using List.find?_some h⟩

/-- The constraints are checked without a change. -/
theorem indexConfiguration_spec (c : BankConfiguration) :
    (indexConfiguration c).wp (fun _ s' => s' = s) (fun _ _ => True) s := by
  simp only [indexConfiguration, bind_eq, wp_bind, wp_lockRow, wp_tables, wp_require]
  cases s.view.versionFree c with
  | false => trivial
  | true =>
    cases s.view.bankFree c with
    | false => trivial
    | true => simp

/-- The live version is active afterwards, and nothing else has changed. -/
theorem activateConfiguration_spec (h : ConfigurationsOk s.supply s.view.configurations)
    (hnone : ∀ r ∈ s.view.configurations, r.bankCode = item.config.bankCode → r.isActive = false)
    (active : Option BankConfiguration) :
    (activateConfiguration item loadedBy now active).wp
      (fun _ s' => ConfigurationsOk s'.supply s'.view.configurations ∧
        ∀ b sha256, ActiveVersion s'.view.configurations b sha256 ↔
          ActiveVersion s.view.configurations b sha256 ∨
            (b = item.config.bankCode ∧ sha256 = item.sha256))
      (fun _ _ => True) s := by
  rw [activateConfiguration, bind_eq, wp_bind, wp_tables]
  cases hversion : s.view.configurationVersion item.config.bankCode item.sha256 with
  | some existing =>
    obtain ⟨hmem, hbank, hsha⟩ := configurationVersion_some hversion
    have hdone := h.reactivate (c := { existing with
      isActive := true, loadedBy := loadedBy, loadedAt := now }) hmem
      (fun r hr hb => hnone r hr (hb.trans hbank)) rfl rfl rfl rfl
    rw [← hbank, ← hsha]
    dsimp only
    rw [bind_eq, wp_bind]
    refine (indexConfiguration_spec _).mono ?_ fun _ _ _ => trivial
    rintro - _ rfl
    rw [bind_eq, wp_bind, wp_put, pure_eq, wp_pure, Store.Session.supply_write,
      Store.Session.view_write]
    exact hdone
  | none =>
    have hnew : ∀ r ∈ s.view.configurations, ¬ (r.bankCode = item.config.bankCode ∧
        r.contentSha256 = item.sha256) := by
      intro r hr hv
      have := List.find?_eq_none.mp hversion r hr
      exact this (decide_eq_true hv)
    have hdone := h.insert (c :=
      { id := s.supply, bankCode := item.config.bankCode
        configVersion := item.config.configVersion, contentSha256 := item.sha256
        isActive := true, loadedBy := loadedBy, loadedAt := now }) hnew hnone rfl rfl
    dsimp only
    rw [bind_eq, wp_bind, wp_newId, bind_eq, wp_bind]
    refine (indexConfiguration_spec _).mono ?_ fun _ _ _ => trivial
    rintro - _ rfl
    rw [bind_eq, wp_bind, wp_put, pure_eq, wp_pure, Store.Session.supply_write,
      Store.Session.view_write]
    exact hdone

/-- A turn leaves the bank with its live version active, and the other banks as they were. -/
theorem syncBank_spec (h : ConfigurationsOk s.supply s.view.configurations) :
    (syncBank logger loadedBy now changes item).wp
      (fun _ s' => ConfigurationsOk s'.supply s'.view.configurations ∧
        ∀ b sha256, ActiveVersion s'.view.configurations b sha256 ↔
          (b = item.config.bankCode ∧ sha256 = item.sha256) ∨
            (ActiveVersion s.view.configurations b sha256 ∧ b ≠ item.config.bankCode))
      (fun _ _ => True) s := by
  rw [syncBank, bind_eq, wp_bind, wp_tables]
  dsimp only
  rw [wp_ite]
  split
  · rename_i hsame
    obtain ⟨old, hactive, hsha⟩ := Option.map_eq_some_iff.mp hsame
    obtain ⟨hold, hbank, ha⟩ := activeConfiguration_some hactive
    refine ⟨h, fun b sha256 => ⟨?_, ?_⟩⟩
    · rintro ⟨r, hr, rfl, rfl, har⟩
      by_cases hb : r.bankCode = item.config.bankCode
      · have := h.active r hr old hold (hb.trans hbank.symm) har ha
        rw [this]
        exact .inl ⟨hbank, hsha⟩
      · exact .inr ⟨⟨r, hr, rfl, rfl, har⟩, hb⟩
    · rintro (⟨rfl, rfl⟩ | ⟨hv, -⟩)
      · exact ⟨old, hold, hbank, hsha, ha⟩
      · exact hv
  · rw [bind_eq, wp_bind]
    refine (retireConfiguration_spec h item.config.bankCode).mono ?_ fun _ _ _ => trivial
    rintro - s₁ ⟨h₁, hv₁⟩
    have hnone : ∀ r ∈ s₁.view.configurations, r.bankCode = item.config.bankCode →
        r.isActive = false := by
      intro r hr hbank
      refine Bool.eq_false_iff.mpr fun ha => ?_
      exact ((hv₁ r.bankCode r.contentSha256).mp ⟨r, hr, rfl, rfl, ha⟩).2 hbank
    rw [bind_eq, wp_bind]
    refine (activateConfiguration_spec h₁ hnone _).mono ?_ fun _ _ _ => trivial
    rintro kind s₂ ⟨h₂, hv₂⟩
    rw [bind_eq, wp_bind]
    refine (AuditLogger.append_spec logger _ s₂).mono ?_ fun _ _ _ => trivial
    rintro row s₃ ⟨-, -, -, rfl⟩
    have hrows : (s₂.take.write (.insertAudit row)).view.configurations =
        s₂.view.configurations := by
      rw [Store.Session.view_write, Store.Session.view_take]
      rfl
    rw [pure_eq, wp_pure, hrows]
    refine ⟨h₂.mono (Nat.le_succ _), fun b sha256 => ?_⟩
    rw [hv₂, hv₁, or_comm]

/-- The loop: the live version of every bank it visits is active, and the other banks are as they
were. -/
theorem syncBanks_spec (logger : AuditLogger) (loadedBy : String) (now : Instant) :
    ∀ (items : List LoadedBankConfig) (changes : List ConfigChange)
    (s : Session), (items.map (·.config.bankCode)).Nodup →
    ConfigurationsOk s.supply s.view.configurations →
    (items.foldlM (syncBank logger loadedBy now) changes).wp
      (fun _ s' => ConfigurationsOk s'.supply s'.view.configurations ∧
        ∀ b sha256, ActiveVersion s'.view.configurations b sha256 ↔
          (∃ item ∈ items, item.config.bankCode = b ∧ item.sha256 = sha256) ∨
            (ActiveVersion s.view.configurations b sha256 ∧
              ∀ item ∈ items, item.config.bankCode ≠ b))
      (fun _ _ => True) s
  | [], changes, s, _, h => by
    refine ⟨h, fun b sha256 => ?_⟩
    simp
  | item :: items, changes, s, hdistinct, h => by
    rw [List.map_cons, List.nodup_cons] at hdistinct
    rw [List.foldlM_cons, bind_eq, wp_bind]
    refine (syncBank_spec h).mono ?_ fun _ _ _ => trivial
    rintro changes' s₁ ⟨h₁, hv₁⟩
    refine (syncBanks_spec logger loadedBy now items changes' s₁ hdistinct.2 h₁).mono ?_ fun _ _ _ => trivial
    rintro - s₂ ⟨h₂, hv₂⟩
    refine ⟨h₂, fun b sha256 => ?_⟩
    have hother : ∀ x ∈ items, x.config.bankCode ≠ item.config.bankCode := fun x hx heq =>
      hdistinct.1 (List.mem_map.mpr ⟨x, hx, heq⟩)
    rw [hv₂, hv₁]
    constructor
    · rintro (⟨x, hx, hxb⟩ | ⟨⟨rfl, rfl⟩ | ⟨hv, hb⟩, hout⟩)
      · exact .inl ⟨x, List.mem_cons_of_mem item hx, hxb⟩
      · exact .inl ⟨item, List.mem_cons_self, rfl, rfl⟩
      · refine .inr ⟨hv, fun x hx => ?_⟩
        rcases List.mem_cons.mp hx with rfl | hx
        · exact hb.symm
        · exact hout x hx
    · rintro (⟨x, hx, rfl, rfl⟩ | ⟨hv, hout⟩)
      · rcases List.mem_cons.mp hx with rfl | hx
        · exact .inr ⟨.inl ⟨rfl, rfl⟩, hother⟩
        · exact .inl ⟨x, hx, rfl, rfl⟩
      · exact .inr ⟨.inr ⟨hv, (hout item List.mem_cons_self).symm⟩,
          fun x hx => hout x (List.mem_cons_of_mem item hx)⟩

/-- A bank whose live version is active is passed over. -/
theorem syncBank_settled (h : ConfigurationsOk s.supply s.view.configurations)
    (hv : ActiveVersion s.view.configurations item.config.bankCode item.sha256) :
    (syncBank logger loadedBy now changes item).exec s = (.ok changes, s) := by
  have hactive : (s.view.activeConfiguration item.config.bankCode).map (·.contentSha256) =
      some item.sha256 := by
    obtain ⟨r, hr, hbank, hsha, ha⟩ := hv
    cases hfind : s.view.activeConfiguration item.config.bankCode with
    | none =>
      rw [activeConfiguration_none hfind r hr hbank] at ha
      cases ha
    | some old =>
      obtain ⟨hold, hbank', ha'⟩ := activeConfiguration_some hfind
      rw [h.active old hold r hr (hbank'.trans hbank.symm) ha' ha, Option.map_some, hsha]
  rw [syncBank, bind_eq, exec_bind]
  change (if (s.view.activeConfiguration item.config.bankCode).map (·.contentSha256) =
    some item.sha256 then _ else _ : Prog (List ConfigChange)).exec s = _
  rw [if_pos hactive]
  rfl

/-- Banks whose live version is active already are passed over. -/
theorem syncBanks_settled (h : ConfigurationsOk s.supply s.view.configurations) :
    ∀ items : List LoadedBankConfig,
      (∀ item ∈ items, ActiveVersion s.view.configurations item.config.bankCode item.sha256) →
      (items.foldlM (syncBank logger loadedBy now) changes).exec s = (.ok changes, s)
  | [], _ => rfl
  | item :: items, hv => by
    rw [List.foldlM_cons, bind_eq, exec_bind, syncBank_settled h (hv item List.mem_cons_self)]
    exact syncBanks_settled h items fun x hx => hv x (List.mem_cons_of_mem item hx)

end

/-! ## Histories -/

/-- A call that returned: the session it found, what the registry held live, and the session it
left. -/
structure SyncCall where
  before : Session
  loaded : List LoadedBankConfig
  after : Session

/-- A history of calls from an empty table, with whatever leaves the table alone in between. A call
that fails is rolled back. -/
inductive SyncRun (logger : AuditLogger) : List SyncCall → Session → Prop
  | start {s : Session} : s.committed.configurations = [] → s.log = [] → SyncRun logger [] s
  | call {calls : List SyncCall} {s s' : Session} {loaded : List LoadedBankConfig}
      {loadedBy : String} {now : Instant} {changes : List ConfigChange} :
      SyncRun logger calls s → (loaded.map (·.config.bankCode)).Nodup →
      (syncBankConfigurations logger loaded loadedBy now).exec s = (.ok changes, s') →
      SyncRun logger (calls ++ [⟨s, loaded, s'⟩]) s'
  | rollback {calls : List SyncCall} {s s' : Session} :
      SyncRun logger calls s → s'.committed = s.committed → s'.log = [] → s.supply ≤ s'.supply →
      SyncRun logger calls s'
  | commit {calls : List SyncCall} {s : Session} :
      SyncRun logger calls s → SyncRun logger calls s.commit
  | other {calls : List SyncCall} {s s' : Session} :
      SyncRun logger calls s → s'.committed.configurations = s.committed.configurations →
      s'.view.configurations = s.view.configurations → s.supply ≤ s'.supply →
      SyncRun logger calls s'

namespace SyncCall

/-- After the call the active versions are the live ones, no bank has two active rows, and the same
call again changes nothing. -/
structure Lawful (logger : AuditLogger) (c : SyncCall) : Prop where
  mirrors : ∀ bankCode sha256, ActiveVersion c.after.view.configurations bankCode sha256 ↔
    ∃ item ∈ c.loaded, item.config.bankCode = bankCode ∧ item.sha256 = sha256
  single : ∀ bankCode, (c.after.view.configurations.filter fun r =>
    r.bankCode = bankCode ∧ r.isActive).length ≤ 1
  settled : ∀ loadedBy now,
    (syncBankConfigurations logger c.loaded loadedBy now).exec c.after = (.ok [], c.after)

/-- No bank with an active row has left the registry. -/
def Covered (c : SyncCall) : Prop :=
  ∀ r ∈ c.before.view.configurations, r.isActive = true →
    ∃ item ∈ c.loaded, item.config.bankCode = r.bankCode

end SyncCall

section

variable {logger : AuditLogger} {calls : List SyncCall} {s s' : Session}
  {loaded : List LoadedBankConfig} {loadedBy : String} {now : Instant}
  {changes : List ConfigChange}

/-- Banks are taken in the order of their codes, all of them. -/
theorem mem_sorted {item : LoadedBankConfig} :
    item ∈ loaded.insertionSort (fun a b => a.config.bankCode ≤ b.config.bankCode) ↔
      item ∈ loaded :=
  List.mem_insertionSort _

/-- What a call does to the table: each bank of the registry ends with its live version active. -/
theorem sync_spec (hdistinct : (loaded.map (·.config.bankCode)).Nodup)
    (h : ConfigurationsOk s.supply s.view.configurations)
    (hexec : (syncBankConfigurations logger loaded loadedBy now).exec s = (.ok changes, s')) :
    ConfigurationsOk s'.supply s'.view.configurations ∧
      ∀ b sha256, ActiveVersion s'.view.configurations b sha256 ↔
        (∃ item ∈ loaded, item.config.bankCode = b ∧ item.sha256 = sha256) ∨
          (ActiveVersion s.view.configurations b sha256 ∧
            ∀ item ∈ loaded, item.config.bankCode ≠ b) := by
  have hsorted : ((loaded.insertionSort fun a b => a.config.bankCode ≤ b.config.bankCode).map
      (·.config.bankCode)).Nodup :=
    ((List.perm_insertionSort _ loaded).map _).nodup_iff.mpr hdistinct
  have hspec := syncBanks_spec logger loadedBy now _ [] s hsorted h
  unfold wp at hspec
  rw [syncBankConfigurations] at hexec
  rw [hexec] at hspec
  simpa only [mem_sorted] using hspec

/-- The writes of a turn: rows of the table, and an entry on the chain of the configurations. -/
def RowWrite.OfSync : RowWrite → Prop
  | .insertConfiguration _ | .updateConfiguration _ => True
  | .insertAudit row => row.chainId = configChain
  | _ => False

/-- One bank writes its own rows and one entry. -/
theorem syncBank_work (item : LoadedBankConfig) :
    (syncBank logger loadedBy now changes item).Work RowWrite.OfSync := by
  have hindex : ∀ c, (indexConfiguration c).Work RowWrite.OfSync := fun c =>
    Work.bind (work_lockRow _) fun _ => Work.bind work_tables fun _ =>
      Work.bind (work_require _ _) fun _ => work_require _ _
  refine Work.bind work_tables fun d => ?_
  dsimp only
  split
  · exact work_pure _
  · refine Work.bind ?_ fun _ => Work.bind ?_ fun kind =>
      Work.bind ((logger.append_chain_work _).weaken ?_) fun _ => work_pure _
    · cases d.activeConfiguration item.config.bankCode with
      | none => exact work_pure _
      | some old => exact work_put.mpr trivial
    · refine Work.bind work_tables fun d' => ?_
      cases d'.configurationVersion item.config.bankCode item.sha256 with
      | some existing =>
        exact Work.bind (hindex _) fun _ => Work.bind (work_put.mpr trivial) fun _ => work_pure _
      | none =>
        exact Work.bind work_newId fun _ => Work.bind (hindex _) fun _ =>
          Work.bind (work_put.mpr trivial) fun _ => work_pure _
    · rintro _ ⟨row, rfl, hrow⟩
      exact hrow

/-- Both the committed table and the transaction's own view of it are as the constraints keep
them. -/
theorem SyncRun.ok (h : SyncRun logger calls s) :
    ConfigurationsOk s.supply s.view.configurations ∧
      ConfigurationsOk s.supply s.committed.configurations := by
  induction h with
  | start hempty hlog =>
    rw [Store.Session.view, hlog, Store.Schema.replay_nil, hempty]
    exact ⟨ConfigurationsOk.nil, ConfigurationsOk.nil⟩
  | @call calls s s' loaded loadedBy now changes hrun hdistinct hexec ih =>
    have hwork : (syncBankConfigurations logger loaded loadedBy now).Work fun _ => True :=
      Work.foldlM _ _ fun _ item _ => (syncBank_work item).weaken fun _ _ => trivial
    have hframe := hwork.exec s
    rw [hexec] at hframe
    refine ⟨(sync_spec hdistinct ih.1 hexec).1, ?_⟩
    rw [hframe.1]
    exact ih.2.mono hframe.2.1
  | rollback hrun hcommitted hlog hsupply ih =>
    rw [Store.Session.view, hlog, Store.Schema.replay_nil, hcommitted]
    exact ⟨ih.2.mono hsupply, ih.2.mono hsupply⟩
  | commit hrun ih => exact ⟨ih.1, ih.1⟩
  | other hrun hcommitted hview hsupply ih =>
    rw [hcommitted, hview]
    exact ⟨ih.1.mono hsupply, ih.2.mono hsupply⟩

/-- A call is lawful exactly when no bank has been removed. -/
theorem SyncCall.lawful_exactly (hdistinct : (loaded.map (·.config.bankCode)).Nodup)
    (h : ConfigurationsOk s.supply s.view.configurations)
    (hexec : (syncBankConfigurations logger loaded loadedBy now).exec s = (.ok changes, s')) :
    SyncCall.Lawful logger ⟨s, loaded, s'⟩ ↔ SyncCall.Covered ⟨s, loaded, s'⟩ := by
  obtain ⟨hok, hv⟩ := sync_spec hdistinct h hexec
  constructor
  · intro hlawful r hr hactive
    by_contra hgone
    have hstays : ActiveVersion s'.view.configurations r.bankCode r.contentSha256 :=
      (hv _ _).mpr (.inr ⟨⟨r, hr, rfl, rfl, hactive⟩, fun item hitem hb =>
        hgone ⟨item, hitem, hb⟩⟩)
    obtain ⟨item, hitem, hb, -⟩ := (hlawful.mirrors _ _).mp hstays
    exact hgone ⟨item, hitem, hb⟩
  · intro hcovered
    have hmirrors : ∀ b sha256, ActiveVersion s'.view.configurations b sha256 ↔
        ∃ item ∈ loaded, item.config.bankCode = b ∧ item.sha256 = sha256 := by
      intro b sha256
      rw [hv]
      constructor
      · rintro (hlive | ⟨⟨r, hr, rfl, -, hactive⟩, hout⟩)
        · exact hlive
        · obtain ⟨item, hitem, hb⟩ := hcovered r hr hactive
          exact absurd hb (hout item hitem)
      · exact .inl
    refine ⟨hmirrors, fun bankCode => ?_, fun by' now' => ?_⟩
    · have hnodup : (s'.view.configurations.filter fun r =>
          r.bankCode = bankCode ∧ r.isActive).Nodup :=
        hok.ids.of_map.filter _
      have hone : ∀ r ∈ s'.view.configurations.filter (fun r =>
          r.bankCode = bankCode ∧ r.isActive), ∀ r' ∈ s'.view.configurations.filter (fun r =>
          r.bankCode = bankCode ∧ r.isActive), r = r' := by
        intro r hr r' hr'
        simp only [List.mem_filter, decide_eq_true_eq] at hr hr'
        exact hok.active r hr.1 r' hr'.1 (hr.2.1.trans hr'.2.1.symm) hr.2.2 hr'.2.2
      dsimp only
      generalize s'.view.configurations.filter
        (fun r => r.bankCode = bankCode ∧ r.isActive) = rows at *
      cases rows with
      | nil => exact Nat.zero_le 1
      | cons r rows =>
        cases rows with
        | nil => exact Nat.le_refl 1
        | cons r' rows =>
          have hsame : r = r' := hone r (by simp) r' (by simp)
          rw [hsame] at hnodup
          exact absurd List.mem_cons_self (List.nodup_cons.mp hnodup).1
    · exact syncBanks_settled hok _ fun item hitem =>
        (hmirrors _ _).mpr ⟨item, mem_sorted.mp hitem, rfl, rfl⟩

/-- **The table mirrors what is live as long as no bank is removed.** In every history every call
is lawful exactly when the banks with an active row are, at every call, all in the registry. -/
theorem SyncRun.mirrors_live (h : SyncRun logger calls s) :
    (∀ c ∈ calls, c.Lawful logger) ↔ ∀ c ∈ calls, c.Covered := by
  refine forall₂_congr ?_
  induction h with
  | start => exact fun c hc => absurd hc List.not_mem_nil
  | call hrun hdistinct hexec ih =>
    intro c hc
    rcases List.mem_append.mp hc with hc | hc
    · exact ih c hc
    · rw [List.mem_singleton.mp hc]
      exact SyncCall.lawful_exactly hdistinct hrun.ok.1 hexec
  | rollback _ _ _ _ ih => exact ih
  | commit _ ih => exact ih
  | other _ _ _ _ ih => exact ih

end

/-! ## A bank that changes and changes back

HDFC is loaded, changes while AXIS is added, and changes back. -/

/-- A reader of files of two bytes: the bank, and the version of its configuration. Its digest is
the file itself, as digits, filled up with zeros. -/
def twoByteReader : ConfigReader where
  parse raw :=
    match raw.data.toList with
    | [bank, version] =>
      .ok { bankCode := if bank = 1 then "AXIS" else "HDFC"
            configVersion := if version = 1 then "1.0.0" else "1.1.0"
            timezone := "Asia/Kolkata", settlementCycle := "T+1", reconciliationWindowDays := 1 }
    | _ => .error "two bytes expected"
  sha256 :=
    { hexdigest := fun raw => String.ofList
        ((raw.data.toList.map (fun b => Nat.digitChar b.toNat) ++ List.replicate 64 '0').take 64)
      length_hexdigest := fun raw => by simp }

def twoByteFile (name : String) (bank version : UInt8) : ConfigFile where
  name := name
  content := ⟨#[bank, version]⟩
  mtimeNs := 0

/-- What is live of a directory. -/
def liveOf (directory : Directory) : List LoadedBankConfig :=
  (loadDirectory twoByteReader directory).toOption.getD []

theorem liveOf_distinct (directory : Directory) :
    ((liveOf directory).map (·.config.bankCode)).Nodup := by
  unfold liveOf
  cases h : loadDirectory twoByteReader directory with
  | error _ => exact List.nodup_nil
  | ok loaded => exact loadDirectory_distinct h

def constantLogger : AuditLogger := ⟨constantDigests⟩

def emptyTables : Session where
  committed := {}
  supply := 0

/-- The session that a call leaves. -/
def synced (directory : Directory) (s : Session) : Session :=
  ((syncBankConfigurations constantLogger (liveOf directory) "system:test" 0).exec s).2

/-- The banks that a call reports, each with what has happened to it; none when it raises. -/
def reported (directory : Directory) (s : Session) :
    Option (List (String × ConfigChangeKind)) :=
  match (syncBankConfigurations constantLogger (liveOf directory) "system:test" 0).exec s with
  | (.ok changes, _) => some (changes.map fun c => (c.bankCode, c.kind))
  | (.error _, _) => none

theorem SyncRun.synced {calls : List SyncCall} {s : Session}
    (h : SyncRun constantLogger calls s) {directory : Directory}
    (hreported : (reported directory s).isSome = true) :
    SyncRun constantLogger (calls ++ [⟨s, liveOf directory, synced directory s⟩])
      (synced directory s) := by
  unfold reported at hreported
  split at hreported
  · rename_i changes s' hexec
    have hcall : (syncBankConfigurations constantLogger (liveOf directory) "system:test" 0).exec s =
        (.ok changes, Recon.synced directory s) := by
      rw [Recon.synced, hexec]
    exact h.call (liveOf_distinct directory) hcall
  · cases hreported

/-- HDFC alone, in its first version. -/
def hdfcAlone : Directory := [twoByteFile "hdfc.yaml" 2 1]

/-- AXIS beside HDFC in this version. -/
def axisAndHdfc (version : UInt8) : Directory :=
  [twoByteFile "axis.yaml" 1 1, twoByteFile "hdfc.yaml" 2 version]

def firstSync : Session := synced hdfcAlone emptyTables
def secondSync : Session := synced (axisAndHdfc 2) firstSync.commit
def thirdSync : Session := synced (axisAndHdfc 1) secondSync.commit

theorem threeCalls_reported :
    reported hdfcAlone emptyTables = some [("HDFC", .added)] ∧
    reported (axisAndHdfc 2) firstSync.commit = some [("AXIS", .added), ("HDFC", .updated)] ∧
    reported (axisAndHdfc 1) secondSync.commit = some [("HDFC", .reactivated)] := by
  decide +kernel

/-- The calls, each committed. -/
def threeCalls : List SyncCall :=
  [⟨emptyTables, liveOf hdfcAlone, firstSync⟩,
   ⟨firstSync.commit, liveOf (axisAndHdfc 2), secondSync⟩,
   ⟨secondSync.commit, liveOf (axisAndHdfc 1), thirdSync⟩]

theorem threeCalls_run : SyncRun constantLogger threeCalls thirdSync := by
  obtain ⟨hfirst, hsecond, hthird⟩ := threeCalls_reported
  have h₁ : SyncRun constantLogger [] emptyTables := .start rfl rfl
  have h₂ := (h₁.synced (Option.isSome_of_eq_some hfirst)).commit
  have h₃ := (h₂.synced (Option.isSome_of_eq_some hsecond)).commit
  exact h₃.synced (Option.isSome_of_eq_some hthird)

theorem threeCalls_covered : ∀ c ∈ threeCalls, ∀ r ∈ c.before.view.configurations,
    r.isActive = true → ∃ item ∈ c.loaded, item.config.bankCode = r.bankCode := by
  decide +kernel

/-- Every call finds the banks it has recorded still there. -/
theorem threeCalls_lawful : threeCalls.Forall (·.Lawful constantLogger) :=
  List.forall_iff_forall_mem.mpr (threeCalls_run.mirrors_live.mpr threeCalls_covered)

/-! ## A bank that is removed -/

/-- The one file of a directory that loads. -/
def firstBank : LoadedBankConfig where
  config := { bankCode := "HDFC", configVersion := "1", timezone := "Asia/Kolkata"
              settlementCycle := "T+1", reconciliationWindowDays := 1 }
  path := "hdfc.v1.yaml"
  sha256 := "h1"

/-- The session after the first call. -/
def afterFirst : Session :=
  ((syncBankConfigurations constantLogger [firstBank] "system:test" 0).exec emptyTables).2

theorem firstCall_exec :
    (syncBankConfigurations constantLogger [firstBank] "system:test" 0).exec emptyTables =
      (.ok [⟨"HDFC", .added, none, "1", "h1"⟩], afterFirst) :=
  Prod.ext (by decide +kernel) rfl

theorem firstCall_run :
    SyncRun constantLogger [⟨emptyTables, [firstBank], afterFirst⟩] afterFirst :=
  .call (.start rfl rfl) (List.nodup_singleton _) firstCall_exec

/-- A bank whose file is removed: the next call returns, and its row is still active. -/
theorem removedBank_active :
    SyncRun constantLogger
        [⟨emptyTables, [firstBank], afterFirst⟩, ⟨afterFirst, [], afterFirst⟩] afterFirst ∧
      ¬ SyncCall.Lawful constantLogger ⟨afterFirst, [], afterFirst⟩ := by
  have hempty : (syncBankConfigurations constantLogger [] "system:test" 0).exec afterFirst =
      (.ok [], afterFirst) := rfl
  refine ⟨firstCall_run.call List.nodup_nil hempty, fun h => ?_⟩
  have hfirst : ([firstBank].map (·.config.bankCode)).Nodup := List.nodup_singleton _
  have hactive : ActiveVersion afterFirst.view.configurations "HDFC" "h1" :=
    ((sync_spec hfirst ConfigurationsOk.nil firstCall_exec).2 _ _).mpr
      (.inl ⟨firstBank, List.mem_singleton_self _, rfl, rfl⟩)
  obtain ⟨item, hitem, -⟩ := (h.mirrors _ _).mp hactive
  cases hitem

end Recon
