import ReconEngine.Audit.Logger
import ReconEngine.Config.Models
import Mathlib.Data.List.Infix

/-!
# Bank configurations and their hot swap

The registry holds the configurations of the directory `config/banks`, keyed by bank code, and
takes up a changed directory without a restart. A check signs the directory (the name, the
modification time and the size of each file); when the signature is not the remembered one it
loads the directory and remembers the signature. A directory that cannot be loaded leaves what is
live alone, and its signature is remembered so that it is not parsed on every request.

Signing and loading are separate readings, and the directory may change between them. `HotSwap`
runs one reading at a time, under any edits. No edit is lost exactly when, each time a signature is
remembered, the directory it was taken of holds what is live from then on, or cannot be loaded at
all.

**The law** (`HotSwap.lawful_iff`): over every order of signings, loadings and edits, no edit is
lost if and only if that holds.

**What it does not establish.** How soon an edit shows: a check has to come first. Two contents with
one name, time and size have one signature, and the second is not noticed.
-/

set_option autoImplicit false

namespace Recon

structure LoadedBankConfig where
  config : BankConfig
  path : String
  sha256 : String
deriving DecidableEq, Repr

/-! ## The directory -/

structure ConfigFile where
  name : String
  content : ByteArray
  mtimeNs : Int

abbrev Directory := List ConfigFile

abbrev Signature := List (String × Int × Nat)

/-- Decoding, the YAML reader, the JSON schema and the typed model, and the digest. -/
structure ConfigReader where
  parse : ByteArray → Except String BankConfig
  sha256 : Sha256

def yamlFiles (directory : Directory) : List ConfigFile :=
  (directory.filter fun f =>
    ".yaml".toList.isSuffixOf f.name.toList && f.name.toList.head? != some '_').insertionSort
      fun f g => f.name ≤ g.name

def signature (directory : Directory) : Signature :=
  (yamlFiles directory).map fun f => (f.name, f.mtimeNs, f.content.size)

/-- What a load reads of the directory. -/
def contents (directory : Directory) : List (String × ByteArray) :=
  (yamlFiles directory).map fun f => (f.name, f.content)

/-- The loop of `_load_directory`: one configuration a file, each bank code once. -/
def loadFiles (reader : ConfigReader) :
    List (String × ByteArray) → List LoadedBankConfig → Except String (List LoadedBankConfig)
  | [], loaded => .ok loaded
  | (path, raw) :: files, loaded => do
    let config ← reader.parse raw
    if loaded.any (·.config.bankCode = config.bankCode) then
      .error (config.bankCode ++ " is declared in more than one file")
    else
      loadFiles reader files (loaded ++ [⟨config, path, reader.sha256.hexdigest raw⟩])

def loadDirectory (reader : ConfigReader) (directory : Directory) :
    Except String (List LoadedBankConfig) :=
  loadFiles reader (contents directory) []

/-! ## The registry -/

structure BankConfigRegistry where
  loaded : List LoadedBankConfig
  signature : Signature
  checkedAt : Int
  lastError : Option String := none
deriving DecidableEq, Repr

/-- Where the construction or a check has arrived. The directory `seen` is the one of the reading
before; it is ghost state. -/
inductive Phase where
  | absent
  /-- Constructing: about to load. -/
  | starting
  /-- Constructing: loaded, about to sign. -/
  | constructing (seen : Directory) (fresh : List LoadedBankConfig)
  | live (r : BankConfigRegistry)
  /-- Checking: about to sign. -/
  | signing (r : BankConfigRegistry) (force : Bool)
  /-- Checking: signed, about to load. -/
  | loading (r : BankConfigRegistry) (seen : Directory) (signature : Signature)
  /-- Checking: a reading failed, about to sign again. -/
  | resigning (r : BankConfigRegistry)

/-- The directory and the registry over it. -/
structure HotSwap where
  directory : Directory
  phase : Phase := .absent

inductive SwapEvent where
  | edit (directory : Directory)
  /-- A caller asks for the configurations at this time. -/
  | access (now : Int)
  | reload (now : Int) (force : Bool)
  /-- The next reading of the construction or check; `false` when the files cannot be read. -/
  | read (ok : Bool) (now : Int)

namespace HotSwap

variable (reader : ConfigReader) (interval : Int)

/-- The next reading. -/
def reading (s : HotSwap) (ok : Bool) (now : Int) : Phase :=
  match s.phase with
  | .absent => .absent
  | .starting =>
    match ok, loadDirectory reader s.directory with
    | true, .ok fresh => .constructing s.directory fresh
    | _, _ => .absent
  | .constructing _ fresh =>
    if ok then .live { loaded := fresh, signature := signature s.directory, checkedAt := now }
    else .absent
  | .live r => .live r
  | .signing r force =>
    if ok then
      if !force && signature s.directory = r.signature then .live r
      else .loading r s.directory (signature s.directory)
    else .resigning { r with lastError := some "OSError" }
  | .loading r _ signature =>
    match ok, loadDirectory reader s.directory with
    | true, .ok fresh => .live { r with loaded := fresh, signature := signature, lastError := none }
    | true, .error e => .resigning { r with lastError := some e }
    | false, _ => .resigning { r with lastError := some "OSError" }
  | .resigning r =>
    if ok then .live { r with signature := signature s.directory } else .live r

/-- One step. A caller that finds a check going on waits for it. -/
def step (s : HotSwap) : SwapEvent → HotSwap
  | .edit directory => { s with directory := directory }
  | .access now =>
    match s.phase with
    | .absent => { s with phase := .starting }
    | .live r =>
      if now - r.checkedAt < interval then s
      else { s with phase := .signing { r with checkedAt := now } false }
    | _ => s
  | .reload now force =>
    match s.phase with
    | .live r => { s with phase := .signing { r with checkedAt := now } force }
    | _ => s
  | .read ok now => { s with phase := s.reading reader ok now }

def run (s : HotSwap) (es : List SwapEvent) : HotSwap := es.foldl (step reader interval) s

/-- The registry, when no check is going on. -/
def registry (s : HotSwap) : Option BankConfigRegistry :=
  match s.phase with
  | .live r => some r
  | _ => none

/-- The configurations that are then live. -/
def liveConfigs (s : HotSwap) : Option (List LoadedBankConfig) := s.registry.map (·.loaded)

theorem registry_eq_some {s : HotSwap} {r : BankConfigRegistry} :
    s.registry = some r ↔ s.phase = .live r := by
  unfold registry
  cases s.phase <;> simp

/-! ## What may be lost -/

/-- With no check going on and the directory unchanging and valid, the first due check leaves the
live configurations equal to what the directory holds. -/
def Settles (s : HotSwap) : Prop :=
  ∀ fresh, loadDirectory reader s.directory = .ok fresh → ∀ now : Int,
    match s.phase with
    | .live r => interval ≤ now - r.checkedAt →
      (s.run reader interval [.access now, .read true now, .read true now]).liveConfigs = some fresh
    | .absent =>
      (s.run reader interval [.access now, .read true now, .read true now]).liveConfigs = some fresh
    | _ => True

/-- The step remembers no signature of a directory that loads, but not to what is live from then
on. -/
def Kept (s : HotSwap) : SwapEvent → Prop
  | .read true _ =>
    match s.phase with
    | .constructing seen _ => ∀ c, loadDirectory reader s.directory = .ok c →
      loadDirectory reader seen = .ok c
    | .loading _ seen _ => ∀ c, loadDirectory reader s.directory = .ok c →
      ∀ c', loadDirectory reader seen = .ok c' → c = c'
    | .resigning r => ∀ c, loadDirectory reader s.directory = .ok c → r.loaded = c
    | _ => True
  | _ => True

/-- The directories of a history. -/
def directories (s : HotSwap) (es : List SwapEvent) : List Directory :=
  s.directory :: es.filterMap fun
    | .edit directory => some directory
    | _ => none

/-- Different contents of the directory have different signatures. -/
def Separates (dirs : List Directory) : Prop :=
  ∀ d ∈ dirs, ∀ d' ∈ dirs, signature d = signature d' → contents d = contents d'

instance (dirs : List Directory) : Decidable (Separates dirs) :=
  inferInstanceAs (Decidable (∀ d ∈ dirs, ∀ d' ∈ dirs,
    signature d = signature d' → contents d = contents d'))

/-- Wherever a history has arrived, and whatever directory it then turns to, that directory goes
live. -/
def Lawful (s : HotSwap) (es : List SwapEvent) : Prop :=
  ∀ pre, pre <+: es → ∀ d ∈ s.directories es,
    Settles reader interval { s.run reader interval pre with directory := d }

variable {reader interval}

/-- Loading depends on names and contents, not on times. -/
theorem loadDirectory_congr {d d' : Directory} (h : contents d = contents d') :
    loadDirectory reader d = loadDirectory reader d' := by
  rw [loadDirectory, h, loadDirectory]

theorem run_concat (s : HotSwap) (es : List SwapEvent) (e : SwapEvent) :
    s.run reader interval (es ++ [e]) = (s.run reader interval es).step reader interval e := by
  rw [run, List.foldl_append]
  rfl

/-- A due check of an unchanging, valid directory: it is loaded unless its signature is the
remembered one. -/
theorem check_live {s : HotSwap} {r : BankConfigRegistry} {fresh : List LoadedBankConfig} {now : Int}
    (hphase : s.phase = .live r) (hload : loadDirectory reader s.directory = .ok fresh)
    (hdue : interval ≤ now - r.checkedAt) :
    (s.run reader interval [.access now, .read true now, .read true now]).liveConfigs =
      some (if signature s.directory = r.signature then r.loaded else fresh) := by
  have hnot : ¬ now - r.checkedAt < interval := not_lt.mpr hdue
  by_cases hsig : signature s.directory = r.signature
  · simp [run, step, reading, liveConfigs, registry, hphase, hnot, hsig]
  · simp [run, step, reading, liveConfigs, registry, hphase, hnot, hsig, hload]

/-- The first check of a registry that is absent loads what is there. -/
theorem check_absent {s : HotSwap} {fresh : List LoadedBankConfig} {now : Int}
    (hphase : s.phase = .absent) (hload : loadDirectory reader s.directory = .ok fresh) :
    (s.run reader interval [.access now, .read true now, .read true now]).liveConfigs =
      some fresh := by
  simp [run, step, reading, liveConfigs, registry, hphase, hload]

/-! ## What the registry has remembered -/

/-- The remembered signature is of a directory that does not load, or that loads to what is
live. -/
def Faithful (reader : ConfigReader) (dirs : List Directory) (r : BankConfigRegistry) : Prop :=
  ∃ d ∈ dirs, r.signature = signature d ∧ ∀ c, loadDirectory reader d = .ok c → r.loaded = c

/-- What the readings of a construction or check have seen. -/
def Traced (reader : ConfigReader) (dirs : List Directory) : Phase → Prop
  | .constructing seen fresh => seen ∈ dirs ∧ loadDirectory reader seen = .ok fresh
  | .loading _ seen sig => seen ∈ dirs ∧ sig = signature seen
  | _ => True

/-- The registry of the phase, if there is one, is faithful. -/
def Trusted (reader : ConfigReader) (dirs : List Directory) : Phase → Prop
  | .absent | .starting | .constructing .. => True
  | .live r | .signing r _ | .loading r .. | .resigning r => Faithful reader dirs r

section Steps

variable {dirs : List Directory} {s : HotSwap} {e : SwapEvent}

/-- What is read was in a directory of the history. -/
theorem reading_traced (hdir : s.directory ∈ dirs) (ok : Bool) (now : Int) :
    Traced reader dirs (s.reading reader ok now) := by
  unfold reading
  cases hp : s.phase with
  | starting =>
    cases ok with
    | false => trivial
    | true =>
      cases hl : loadDirectory reader s.directory with
      | error e => trivial
      | ok fresh => exact ⟨hdir, hl⟩
  | signing r force =>
    dsimp only
    split
    · split
      · trivial
      · exact ⟨hdir, rfl⟩
    · trivial
  | constructing seen fresh => dsimp only; split <;> trivial
  | loading r seen sig => cases ok <;> cases loadDirectory reader s.directory <;> trivial
  | resigning r => dsimp only; split <;> trivial
  | _ => trivial

theorem step_traced (hdir : s.directory ∈ dirs) (h : Traced reader dirs s.phase) :
    Traced reader dirs (s.step reader interval e).phase := by
  cases e with
  | edit d => exact h
  | access now =>
    unfold step
    cases hp : s.phase with
    | absent => trivial
    | live r =>
      dsimp only
      split
      · exact h
      · trivial
    | _ => exact h
  | reload now force =>
    unfold step
    cases hp : s.phase with
    | live r => trivial
    | _ => exact h
  | read ok now => exact reading_traced hdir ok now

/-- A reading that keeps to the condition leaves a faithful registry: the three places where a
signature is remembered are the cases that need it. -/
theorem reading_trusted (hdir : s.directory ∈ dirs) (htraced : Traced reader dirs s.phase)
    (h : Trusted reader dirs s.phase) {ok : Bool} {now : Int}
    (hkept : s.Kept reader (.read ok now)) : Trusted reader dirs (s.reading reader ok now) := by
  unfold reading
  cases hp : s.phase with
  | absent => trivial
  | starting =>
    cases ok with
    | false => trivial
    | true => cases loadDirectory reader s.directory <;> trivial
  | constructing seen fresh =>
    cases ok with
    | false => trivial
    | true =>
      simp only [Kept, hp] at hkept
      rw [hp] at htraced
      refine ⟨s.directory, hdir, rfl, fun c hc => ?_⟩
      exact Except.ok.inj (htraced.2.symm.trans (hkept c hc))
  | live r => rw [hp] at h; exact h
  | signing r force =>
    rw [hp] at h
    dsimp only
    split
    · split <;> exact h
    · exact h
  | loading r seen sig =>
    rw [hp] at h htraced
    cases ok with
    | false => cases loadDirectory reader s.directory <;> exact h
    | true =>
      simp only [Kept, hp] at hkept
      cases hl : loadDirectory reader s.directory with
      | error e => exact h
      | ok fresh => exact ⟨seen, htraced.1, htraced.2, hkept fresh hl⟩
  | resigning r =>
    rw [hp] at h
    cases ok with
    | false => exact h
    | true =>
      simp only [Kept, hp] at hkept
      exact ⟨s.directory, hdir, rfl, hkept⟩

/-- A step that keeps to the condition leaves a remembered signature that can be trusted. -/
theorem step_trusted (hdir : s.directory ∈ dirs) (htraced : Traced reader dirs s.phase)
    (h : Trusted reader dirs s.phase) (hkept : s.Kept reader e) :
    Trusted reader dirs (s.step reader interval e).phase := by
  cases e with
  | edit d => exact h
  | access now =>
    unfold step
    cases hp : s.phase with
    | absent => trivial
    | live r =>
      rw [hp] at h
      dsimp only
      split
      · rw [hp]
        exact h
      · exact h
    | _ => exact h
  | reload now force =>
    unfold step
    cases hp : s.phase with
    | live r => rw [hp] at h; exact h
    | _ => exact h
  | read ok now => exact reading_trusted hdir htraced h hkept

end Steps

/-! ## Histories -/

theorem step_directory (s : HotSwap) (e : SwapEvent) :
    (s.step reader interval e).directory = match e with
      | .edit d => d
      | _ => s.directory := by
  cases e with
  | access now =>
    unfold step
    cases s.phase with
    | live r => dsimp only; split <;> rfl
    | _ => rfl
  | reload now force => unfold step; cases s.phase <;> rfl
  | _ => rfl

variable {s : HotSwap}

variable (reader interval) in
/-- The directory of a history is one of its directories. -/
theorem run_directory (es : List SwapEvent) :
    (s.run reader interval es).directory ∈ s.directories es := by
  induction es using List.reverseRecOn with
  | nil => exact List.mem_cons_self
  | append_singleton es e ih =>
    have hmono : s.directories es ⊆ s.directories (es ++ [e]) := by
      intro d hd
      rw [directories, List.filterMap_append]
      rcases List.mem_cons.mp hd with rfl | hmem
      · exact List.mem_cons_self
      · exact List.mem_cons_of_mem _ (List.mem_append_left _ hmem)
    rw [run_concat, step_directory]
    cases e with
    | edit d =>
      rw [directories, List.filterMap_append]
      exact List.mem_cons_of_mem _ (List.mem_append_right _ List.mem_cons_self)
    | _ => exact hmono ih

/-- A longer history has seen more directories. -/
theorem directories_grow {pre es : List SwapEvent} (h : pre <+: es) :
    s.directories pre ⊆ s.directories es := by
  obtain ⟨suf, rfl⟩ := h
  intro d hd
  rw [directories, List.filterMap_append]
  rcases List.mem_cons.mp hd with rfl | hmem
  · exact List.mem_cons_self
  · exact List.mem_cons_of_mem _ (List.mem_append_left _ hmem)

variable (reader interval) in
/-- The registry holds what was in some directory of the history, at every moment. -/
theorem run_traced (habsent : s.phase = .absent) (es : List SwapEvent) :
    ∀ pre, pre <+: es → Traced reader (s.directories es) (s.run reader interval pre).phase := by
  intro pre
  induction pre using List.reverseRecOn with
  | nil => intro _; rw [show (s.run reader interval []).phase = .absent from habsent]; trivial
  | append_singleton pre e ih =>
    intro hpre
    have hpre' : pre <+: es := (List.prefix_append pre [e]).trans hpre
    rw [run_concat]
    exact step_traced (directories_grow hpre' (run_directory reader interval pre)) (ih hpre')

/-- Every step of the history keeps to the condition. -/
def Undisturbed (reader : ConfigReader) (interval : Int) (s : HotSwap) (es : List SwapEvent) : Prop :=
  ∀ pre e, pre ++ [e] <+: es → (s.run reader interval pre).Kept reader e

theorem run_trusted (habsent : s.phase = .absent) {es : List SwapEvent}
    (h : Undisturbed reader interval s es) :
    ∀ pre, pre <+: es → Trusted reader (s.directories es) (s.run reader interval pre).phase := by
  intro pre
  induction pre using List.reverseRecOn with
  | nil => intro _; rw [show (s.run reader interval []).phase = .absent from habsent]; trivial
  | append_singleton pre e ih =>
    intro hpre
    have hpre' : pre <+: es := (List.prefix_append pre [e]).trans hpre
    rw [run_concat]
    exact step_trusted (directories_grow hpre' (run_directory reader interval pre))
      (run_traced reader interval habsent es pre hpre') (ih hpre') (h pre e hpre)

/-- A registry that is faithful takes up whatever the directory holds. -/
theorem settles_of_trusted {dirs : List Directory} (hsep : Separates dirs)
    (hdir : s.directory ∈ dirs) (h : Trusted reader dirs s.phase) :
    s.Settles reader interval := by
  intro fresh hload now
  cases hp : s.phase with
  | live r =>
    intro hdue
    rw [check_live hp hload hdue]
    rw [hp] at h
    obtain ⟨d, hd, hsig, hfaithful⟩ := h
    split
    · rename_i heq
      have hcontents := hsep s.directory hdir d hd (heq.trans hsig)
      rw [hfaithful fresh ((loadDirectory_congr hcontents).symm.trans hload)]
    · rfl
  | absent => exact check_absent hp hload
  | _ => trivial

/-- A live registry whose remembered signature is the directory's takes up nothing. -/
theorem loaded_of_settles {r : BankConfigRegistry} {c : List LoadedBankConfig}
    (hp : s.phase = .live r) (hsig : signature s.directory = r.signature)
    (hload : loadDirectory reader s.directory = .ok c) (h : s.Settles reader interval) :
    r.loaded = c := by
  have hc := h c hload (interval + r.checkedAt)
  rw [hp] at hc
  have hdue : interval ≤ interval + r.checkedAt - r.checkedAt := by omega
  have hlive := hc hdue
  rw [check_live hp hload hdue, if_pos hsig] at hlive
  exact Option.some.inj hlive

/-- **When no edit is lost.** A history loses no edit exactly when every step of it keeps to the
condition. -/
theorem lawful_iff (habsent : s.phase = .absent) (es : List SwapEvent)
    (hsep : Separates (s.directories es)) :
    s.Lawful reader interval es ↔ Undisturbed reader interval s es := by
  constructor
  · intro hlaw pre e hpre
    have hpre' : pre <+: es := (List.prefix_append pre [e]).trans hpre
    have hdir : (s.run reader interval pre).directory ∈ s.directories es :=
      directories_grow hpre' (run_directory reader interval pre)
    have htraced := run_traced reader interval habsent es pre hpre'
    have hnext := hlaw _ hpre
    rw [run_concat] at hnext
    have hlive : ∀ r c d, d ∈ s.directories es →
        ((s.run reader interval pre).step reader interval e).phase = .live r →
        signature d = r.signature → loadDirectory reader d = .ok c → r.loaded = c :=
      fun r c d hd hp hsig hc => loaded_of_settles (s := ⟨d, _⟩) hp hsig hc (hnext d hd)
    cases e with
    | read ok now =>
      cases ok with
      | false => trivial
      | true =>
        simp only [Kept]
        cases hp : (s.run reader interval pre).phase with
        | constructing seen fresh =>
          intro c hc
          rw [hp] at htraced
          refine htraced.2.trans (congrArg Except.ok ?_)
          refine hlive ⟨fresh, signature (s.run reader interval pre).directory, now, none⟩ c _ hdir
            ?_ rfl hc
          simp only [step, reading, hp, if_true]
        | loading r seen sig =>
          intro c hc c' hc'
          rw [hp] at htraced
          refine hlive ⟨c, sig, r.checkedAt, none⟩ c' seen htraced.1 ?_ htraced.2.symm hc'
          simp only [step, reading, hp, hc]
        | resigning r =>
          intro c hc
          refine hlive { r with signature := signature (s.run reader interval pre).directory } c _
            hdir ?_ rfl hc
          simp only [step, reading, hp, if_true]
        | _ => trivial
    | _ => trivial
  · intro h pre hpre d hd
    exact settles_of_trusted hsep hd (run_trusted habsent h pre hpre)

/-! ## An edit that is lost

The file is rewritten after the constructor has loaded it and before it is signed. -/

def bankFile (version : String) (mtimeNs : Int) : ConfigFile where
  name := "axis.yaml"
  content := version.toUTF8
  mtimeNs := mtimeNs

/-- A reader that takes the whole file for the configuration's version. -/
def versionReader : ConfigReader where
  parse raw := match String.fromUTF8? raw with
    | some version => .ok { bankCode := "AXIS", configVersion := version, timezone := "Asia/Kolkata",
                            settlementCycle := "T+1", reconciliationWindowDays := 3 }
    | none => .error "invalid start byte"
  sha256 := { hexdigest := fun _ => "0000000000000000000000000000000000000000000000000000000000000000",
              length_hexdigest := fun _ => rfl }

def beforeStart : HotSwap := { directory := [bankFile "1.0.0" 1] }

def editedStart : List SwapEvent :=
  [.access 0, .read true 0, .edit [bankFile "1.1.0" 2], .read true 0]

/-- What the registry holds of a version. -/
def loadedVersion (version : String) : LoadedBankConfig where
  config := { bankCode := "AXIS", configVersion := version, timezone := "Asia/Kolkata",
              settlementCycle := "T+1", reconciliationWindowDays := 3 }
  path := "axis.yaml"
  sha256 := "0000000000000000000000000000000000000000000000000000000000000000"

/-- The rewritten file never goes live. -/
theorem editedStart_lost :
    Separates (beforeStart.directories editedStart) ∧
      ¬ beforeStart.Lawful versionReader 2 editedStart := by
  refine ⟨by decide +kernel, fun h => ?_⟩
  have hlive : (beforeStart.run versionReader 2 editedStart).registry =
      some ⟨[loadedVersion "1.0.0"], signature [bankFile "1.1.0" 2], 0, none⟩ := by decide +kernel
  have hload : loadDirectory versionReader [bankFile "1.1.0" 2] = .ok [loadedVersion "1.1.0"] := by
    decide +kernel
  have hmem : [bankFile "1.1.0" 2] ∈ beforeStart.directories editedStart :=
    List.mem_cons_of_mem _ List.mem_cons_self
  have heq := loaded_of_settles (s := ⟨[bankFile "1.1.0" 2], _⟩) (registry_eq_some.mp hlive) rfl hload
    (h editedStart List.prefix_rfl _ hmem)
  exact absurd heq (by decide)

/-- The exact condition, at the history of the lost edit. -/
theorem lawful_iff_editedStart :
    beforeStart.Lawful versionReader 2 editedStart ↔
      Undisturbed versionReader 2 beforeStart editedStart :=
  lawful_iff rfl editedStart (by decide +kernel)

end HotSwap
end Recon
