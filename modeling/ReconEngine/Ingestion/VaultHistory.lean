import ReconEngine.Ingestion.Vault
import Mathlib.Logic.Relation

/-!
# What becomes of stored files

The steps of uploads and verifications, in any order, with processes lost between them and changes
from outside, come to a few moves (`step_moves`).

**The law of records** (`run_sound`): at every moment no two files have the same content or the same
path, the audit entries of a file tell its statuses one after another up to the one in its row, and
there is one alert for every wrong content that a check of a file has found.

**What it does not establish.** That the recorded status is the present one: between a change from
outside and the next check nobody has noticed. What a check does notice is `Ingestion.Tampering`.
-/

set_option autoImplicit false

namespace Recon

open Store

namespace Vault

variable {lib : UploadLibrary} {banks : List BankFormats}

/-! ## Moves -/

def storedPaths (v : Vault) : List UploadPath := (v.files.map (·.storedPath)).filterMap id

def pendingPaths (v : Vault) : List UploadPath := v.pending.map (·.path)

/-- The paths in use. -/
def paths (v : Vault) : List UploadPath := v.storedPaths ++ v.pendingPaths

/-- What can happen at once, where some paths may be changed from outside and the uploads to some may
be lost. -/
inductive Move (lib : UploadLibrary) (exposed lost : UploadPath → Prop) (v : Vault) : Vault → Prop
  | saved (extension bankCode displayName : String) (bytes : Bytes) :
    Move lib exposed lost v { v with
      disk := v.disk.put ⟨v.supply, extension⟩ bytes
      supply := v.supply + 1
      pending := v.pending ++
        [⟨⟨v.supply, extension⟩, bankCode, displayName, lib.sha256 bytes, false⟩] }
  | looked (mark : PendingUpload → Bool) :
    Move lib exposed lost v { v with
      pending := v.pending.map fun up => { up with lookedUp := mark up } }
  | lost {path : UploadPath} (hlost : lost path) : Move lib exposed lost v (v.settle path)
  | discarded (path : UploadPath) (hpending : path ∈ v.pendingPaths) :
    Move lib exposed lost v (v.discard path)
  | ingested {path : UploadPath} (bankCode displayName : String) {bytes : Bytes} (now : Instant)
    (hpending : path ∈ v.pendingPaths) (hbytes : v.disk.get? path = some bytes)
    (hnew : ∀ file ∈ v.files, file.contentSha256 ≠ lib.sha256 bytes) :
    Move lib exposed lost v { v.settle path with
      supply := v.supply + 1
      files := v.files ++ [{
        id := v.supply
        bankCode := bankCode
        originalFilename := displayName
        contentSha256 := lib.sha256 bytes
        storedPath := some path
        ingestedAt := now }] }
  | outside {path : UploadPath} (bytes : Option Bytes) (hexposed : exposed path) :
    Move lib exposed lost v (v.overwrite path bytes)
  | recorded {file : StoredFile} {path : UploadPath} (actor : String) (now : Instant)
    (hfile : file ∈ v.files) (hpath : file.storedPath = some path) :
    Move lib exposed lost v (v.record file (v.check lib file path actor now))

abbrev Moves (lib : UploadLibrary) (exposed lost : UploadPath → Prop) : Vault → Vault → Prop :=
  Relation.ReflTransGen (Move lib exposed lost)

/-! ## Every step is some moves -/

section

variable {v : Vault} {exposed lost : UploadPath → Prop}

/-- Saving the bytes of an upload is a move. -/
theorem save_moves {up : VaultUpload} {result : Vault × UploadPath}
    (h : v.save lib banks up = .ok result) : Move lib exposed lost v result.1 := by
  unfold save at h
  split at h
  · cases h
  · cases htarget : validateTarget lib banks up with
    | error e =>
      rw [htarget] at h
      cases h
    | ok extension =>
      cases hbytes : readStream maxUploadBytes up.chunks [] with
      | error e =>
        rw [htarget, hbytes] at h
        cases h
      | ok bytes =>
        simp only [htarget, hbytes, bind, Except.bind, pure, Except.pure] at h
        cases h
        exact .saved extension up.bankCode _ bytes

/-- An upload that is found by its path is in progress. -/
theorem mem_pendingPaths_of_find {path : UploadPath} {lookedUp : Bool} {up : PendingUpload}
    (h : v.pending.find? (fun up => up.path = path ∧ up.lookedUp = lookedUp) = some up) :
    path ∈ v.pendingPaths := by
  have hup := List.find?_some h
  rw [decide_eq_true_eq] at hup
  exact List.mem_map.mpr ⟨up, List.mem_of_find?_eq_some h, hup.1⟩

/-- Looking for the same content is no change, or the loss of the request. -/
theorem lookUp_moves (path : UploadPath) (answered : Bool) (hlost : answered = false → lost path) :
    Moves lib exposed lost v (v.lookUp path answered).1 := by
  unfold lookUp
  split
  · exact .refl
  · rename_i up hfind
    split
    · rename_i hnone
      exact .single (.lost (hlost hnone))
    · split
      · exact .single (.discarded path (mem_pendingPaths_of_find hfind))
      · exact .single (.looked fun other => other.lookedUp || decide (other.path = path))

/-- Ending an upload ingests the file or discards its bytes. -/
theorem finish_moves (path : UploadPath) (accepted : Bool) (now : Instant) :
    Moves lib exposed lost v (v.finish lib path accepted now) := by
  unfold finish
  split
  · exact .refl
  · rename_i up hfind
    have hpending : path ∈ v.pendingPaths := mem_pendingPaths_of_find hfind
    split
    · exact .single (.discarded path hpending)
    · rename_i bytes hbytes
      split
      · rename_i haccepted
        have hnew : ∀ file ∈ v.files, file.contentSha256 ≠ lib.sha256 bytes :=
          fun file hfile => of_decide_eq_true (List.all_eq_true.mp haccepted.2 file hfile)
        exact .single (.ingested up.bankCode up.displayName now hpending hbytes hnew)
      · exact .single (.discarded path hpending)

theorem verify_moves {principal : Principal} {fileId : Id} {now : Instant}
    {result : Vault × IntegrityStatus} (h : v.verify lib principal fileId now = .ok result) :
    Move lib exposed lost v result.1 := by
  unfold verify at h
  split at h
  · cases h
  · split at h
    · cases h
    · rename_i file hfind
      split at h
      · cases h
      · rename_i path hpath
        cases h
        exact .recorded _ now (List.mem_of_find?_eq_some hfind) hpath

/-- A check leaves the other files as they were. -/
theorem mem_record_of_ne {file other : StoredFile} {found : FileCheck} (hother : other ∈ v.files)
    (hne : other.id ≠ file.id) : other ∈ (v.record file found).files :=
  mem_updateIn.mpr ⟨other, hother, if_neg (mt List.mem_singleton.mp hne)⟩

theorem verifyNext_eq {actor : String} {now : Instant} {state : Vault × List IntegrityStatus}
    {file : StoredFile} {path : UploadPath} (hpath : file.storedPath = some path) :
    verifyNext lib actor now state file =
      (state.1.record file (state.1.check lib file path actor now),
        state.2 ++ [state.1.statusOf lib file path]) := by
  unfold verifyNext
  rw [hpath]
  rfl

theorem verifyNext_of_none {actor : String} {now : Instant} {state : Vault × List IntegrityStatus}
    {file : StoredFile} (hpath : file.storedPath = none) :
    verifyNext lib actor now state file = state := by
  unfold verifyNext
  rw [hpath]

/-- The files that are still to be checked are untouched by the checks of others. -/
theorem verifyNext_others {actor : String} {now : Instant} {state : Vault × List IntegrityStatus}
    {file other : StoredFile} (hother : other ∈ state.1.files) (hne : other.id ≠ file.id) :
    other ∈ (verifyNext lib actor now state file).1.files := by
  cases hpath : file.storedPath with
  | none =>
    rw [verifyNext_of_none hpath]
    exact hother
  | some path =>
    rw [verifyNext_eq hpath]
    exact mem_record_of_ne hother hne

theorem verifyNext_moves (actor : String) (now : Instant) :
    ∀ (files : List StoredFile) (state : Vault × List IntegrityStatus),
      (files.map (·.id)).Nodup → (∀ file ∈ files, file ∈ state.1.files) →
      Moves lib exposed lost state.1 (files.foldl (verifyNext lib actor now) state).1 := by
  intro files
  induction files with
  | nil =>
    intro state _ _
    exact .refl
  | cons file files ih =>
    intro state hids hfiles
    obtain ⟨hnew, hrest⟩ := List.nodup_cons.mp hids
    have hmove : Moves lib exposed lost state.1 (verifyNext lib actor now state file).1 := by
      cases hpath : file.storedPath with
      | none =>
        rw [verifyNext_of_none hpath]
      | some path =>
        rw [verifyNext_eq hpath]
        exact .single (.recorded actor now (hfiles file List.mem_cons_self) hpath)
    rw [List.foldl_cons]
    apply hmove.trans
    apply ih _ hrest
    intro other hother
    apply verifyNext_others (hfiles other (List.mem_cons_of_mem file hother))
    intro heq
    have hmem : other.id ∈ files.map (·.id) := List.mem_map_of_mem hother
    rw [heq] at hmem
    exact hnew hmem

/-- The files of `verify_all`, each once. -/
theorem mem_stored {file : StoredFile} :
    file ∈ v.stored ↔ file ∈ v.files ∧ file.storedPath.isSome = true := by
  unfold stored
  rw [(List.mergeSort_perm _ _).mem_iff, List.mem_filter]

theorem stored_nodup (hids : (v.files.map (·.id)).Nodup) : (v.stored.map (·.id)).Nodup := by
  unfold stored
  rw [((List.mergeSort_perm _ _).map _).nodup_iff]
  exact (List.filter_sublist.map _).nodup hids

/-- A check of all is a check of one after another. -/
theorem verifyAll_moves {principal : Principal} {now : Instant} {result : Vault × VerifyAllOut}
    (hids : (v.files.map (·.id)).Nodup) (h : v.verifyAll lib principal now = .ok result) :
    Moves lib exposed lost v result.1 := by
  unfold verifyAll at h
  split at h
  · cases h
  · cases h
    apply verifyNext_moves _ now v.stored (v, []) (stored_nodup hids)
    intro file hfile
    exact (mem_stored.mp hfile).1

theorem step_moves (hids : (v.files.map (·.id)).Nodup) (e : VaultEvent)
    (he : ∀ path, e.exposes path → exposed path) (hl : ∀ path, e.loses path → lost path) :
    Moves lib exposed lost v (v.step lib banks e) := by
  cases e with
  | upload up =>
    show Moves lib exposed lost v (((v.save lib banks up).toOption.map Prod.fst).getD v)
    cases h : v.save lib banks up with
    | error e => exact .refl
    | ok result => exact .single (save_moves h)
  | lookUp path answered =>
    apply lookUp_moves path answered
    intro hnone
    apply hl path
    rw [hnone]
    rfl
  | finish path accepted now => exact finish_moves path accepted now
  | lose path => exact .single (.lost (hl path rfl))
  | outside path bytes => exact .single (.outside bytes (he path rfl))
  | verify principal fileId now =>
    show Moves lib exposed lost v (((v.verify lib principal fileId now).toOption.map Prod.fst).getD v)
    cases h : v.verify lib principal fileId now with
    | error e => exact .refl
    | ok result => exact .single (verify_moves h)
  | verifyAll principal now =>
    show Moves lib exposed lost v (((v.verifyAll lib principal now).toOption.map Prod.fst).getD v)
    cases h : v.verifyAll lib principal now with
    | error e => exact .refl
    | ok result => exact verifyAll_moves hids h

end

/-! ## Sound records -/

/-- The checks of a file, in their order. -/
def checksOf (v : Vault) (fileId : Id) : List FileCheck := v.checks.filter (·.fileId = fileId)

/-- The alerts that the checks drafted. -/
def drafts (v : Vault) : List TamperAlert :=
  (v.checks.filter (·.status ≠ .ok)).filterMap fun found =>
    (v.files.find? (·.id = found.fileId)).map found.alert

structure Sound (v : Vault) : Prop where
  ids : (v.files.map (·.id)).Nodup
  contents : (v.files.map (·.contentSha256)).Nodup
  paths : v.paths.Nodup
  fileIds : ∀ file ∈ v.files, file.id < v.supply
  pathNames : ∀ path ∈ v.paths, path.name < v.supply
  checked : ∀ found ∈ v.checks, found.fileId < v.supply
  /-- Every check starts from what the one before it found, and the row has what the last one found. -/
  statuses : ∀ file ∈ v.files,
    (v.checksOf file.id).map (·.previous) ++ [file.integrityStatus] =
      none :: (v.checksOf file.id).map fun found => some found.status
  /-- One alert for every wrong content that was found. -/
  alerts : v.alerts = inserted TamperAlert.dedupeKey [] v.drafts

theorem sound_empty : Sound {} where
  ids := List.nodup_nil
  contents := List.nodup_nil
  paths := List.nodup_nil
  fileIds := fun _ h => absurd h List.not_mem_nil
  pathNames := fun _ h => absurd h List.not_mem_nil
  checked := fun _ h => absurd h List.not_mem_nil
  statuses := fun _ h => absurd h List.not_mem_nil
  alerts := rfl

section

variable {v : Vault}

theorem mem_storedPaths {file : StoredFile} {path : UploadPath} (hfile : file ∈ v.files)
    (hpath : file.storedPath = some path) : path ∈ v.storedPaths := by
  unfold storedPaths
  rw [List.mem_filterMap]
  exact ⟨some path, hpath ▸ List.mem_map_of_mem hfile, rfl⟩

/-- A path of a file is not that of an upload in progress. -/
theorem Sound.path_ne (hv : v.Sound) {path path' : UploadPath} (hstored : path ∈ v.storedPaths)
    (hpending : path' ∈ v.pendingPaths) : path' ≠ path := by
  intro heq
  obtain ⟨-, -, hdisjoint⟩ := List.nodup_append.mp hv.paths
  exact hdisjoint path hstored path' hpending heq.symm

/-- New bytes have a path that nothing else has. -/
theorem Sound.saved (hv : v.Sound) (extension bankCode displayName : String) (bytes : Bytes) :
    Sound { v with
      disk := v.disk.put ⟨v.supply, extension⟩ bytes
      supply := v.supply + 1
      pending := v.pending ++
        [⟨⟨v.supply, extension⟩, bankCode, displayName, lib.sha256 bytes, false⟩] } where
  ids := hv.ids
  contents := hv.contents
  paths := by
    show (v.storedPaths ++ (v.pending ++ [_]).map PendingUpload.path).Nodup
    rw [List.map_append, ← List.append_assoc]
    apply List.nodup_append.mpr
    refine ⟨hv.paths, List.nodup_singleton _, ?_⟩
    intro path hpath other hother heq
    have hname := hv.pathNames path hpath
    rw [heq, List.mem_singleton.mp hother] at hname
    exact absurd hname (Nat.lt_irrefl _)
  fileIds file hfile := (hv.fileIds file hfile).trans (Nat.lt_succ_self _)
  pathNames path hpath := by
    rcases List.mem_append.mp hpath with hstored | hup
    · exact (hv.pathNames path (List.mem_append_left _ hstored)).trans (Nat.lt_succ_self _)
    · obtain ⟨up, hmem, rfl⟩ := List.mem_map.mp hup
      rcases List.mem_append.mp hmem with hold | hlast
      · have hold' : up.path ∈ v.paths := List.mem_append_right _ (List.mem_map_of_mem hold)
        exact (hv.pathNames up.path hold').trans (Nat.lt_succ_self _)
      · rw [List.mem_singleton.mp hlast]
        exact Nat.lt_succ_self _
  checked found hfound := (hv.checked found hfound).trans (Nat.lt_succ_self _)
  statuses := hv.statuses
  alerts := hv.alerts

/-- What is known of an upload does not change its path. -/
theorem looked_paths (mark : PendingUpload → Bool) :
    ({ v with pending := v.pending.map fun up => { up with lookedUp := mark up } } : Vault).paths =
      v.paths := by
  unfold paths pendingPaths
  rw [List.map_map]
  rfl

theorem Sound.looked (hv : v.Sound) (mark : PendingUpload → Bool) :
    Sound { v with pending := v.pending.map fun up => { up with lookedUp := mark up } } where
  ids := hv.ids
  contents := hv.contents
  paths := by
    rw [looked_paths]
    exact hv.paths
  fileIds := hv.fileIds
  pathNames other hother := by
    rw [looked_paths] at hother
    exact hv.pathNames other hother
  checked := hv.checked
  statuses := hv.statuses
  alerts := hv.alerts

theorem mem_pendingPaths_settle {path path' : UploadPath} :
    path' ∈ (v.settle path).pendingPaths ↔ path' ∈ v.pendingPaths ∧ path' ≠ path := by
  unfold pendingPaths settle
  simp only [List.mem_map, List.mem_filter, decide_eq_true_eq]
  constructor
  · intro h
    obtain ⟨up, ⟨hup, hne⟩, rfl⟩ := h
    exact ⟨⟨up, hup, rfl⟩, hne⟩
  · intro h
    obtain ⟨⟨up, hup, rfl⟩, hne⟩ := h
    exact ⟨up, ⟨hup, hne⟩, rfl⟩

/-- An upload that is over leaves fewer paths. -/
theorem settle_paths (v : Vault) (path : UploadPath) : (v.settle path).paths.Sublist v.paths :=
  List.Sublist.append (List.Sublist.refl _) (List.filter_sublist.map _)

/-- An upload that ends frees its path. -/
theorem Sound.settled (hv : v.Sound) (path : UploadPath) : (v.settle path).Sound where
  ids := hv.ids
  contents := hv.contents
  paths := (settle_paths v path).nodup hv.paths
  fileIds := hv.fileIds
  pathNames other hother := hv.pathNames other ((settle_paths v path).subset hother)
  checked := hv.checked
  statuses := hv.statuses
  alerts := hv.alerts

/-- Nothing in the tables depends on the bytes. -/
theorem Sound.disk (hv : v.Sound) (disk : Dict UploadPath Bytes) : Sound { v with disk := disk } where
  ids := hv.ids
  contents := hv.contents
  paths := hv.paths
  fileIds := hv.fileIds
  pathNames := hv.pathNames
  checked := hv.checked
  statuses := hv.statuses
  alerts := hv.alerts

/-- The path of the upload becomes that of the file. -/
theorem ingested_paths {file : StoredFile} {path : UploadPath} {supply : Id}
    (hpath : file.storedPath = some path) :
    ({ v.settle path with supply := supply, files := v.files ++ [file] } : Vault).paths =
      v.storedPaths ++ path :: (v.settle path).pendingPaths := by
  unfold paths storedPaths
  rw [List.map_append, List.filterMap_append, List.map_singleton, hpath, List.append_assoc]
  rfl

/-- A change from outside changes no record. -/
theorem Sound.overwritten (hv : v.Sound) (path : UploadPath) (bytes : Option Bytes) :
    (v.overwrite path bytes).Sound := by
  cases bytes with
  | none => exact hv.disk _
  | some bytes => exact hv.disk _

/-- A row for new content keeps contents and paths apart. -/
theorem Sound.ingested (hv : v.Sound) {file : StoredFile} {path : UploadPath}
    (hpending : path ∈ v.pendingPaths)
    (hnew : ∀ other ∈ v.files, other.contentSha256 ≠ file.contentSha256)
    (hid : file.id = v.supply) (hpath : file.storedPath = some path)
    (hstatus : file.integrityStatus = none) :
    Sound { v.settle path with supply := v.supply + 1, files := v.files ++ [file] } where
  ids := by
    rw [List.map_append]
    apply List.nodup_append.mpr
    refine ⟨hv.ids, List.nodup_singleton _, ?_⟩
    intro a ha b hb heq
    obtain ⟨other, hother, rfl⟩ := List.mem_map.mp ha
    have hb' : b = file.id := List.mem_singleton.mp hb
    have hless := hv.fileIds other hother
    rw [heq, hb', hid] at hless
    exact absurd hless (Nat.lt_irrefl _)
  contents := by
    rw [List.map_append]
    apply List.nodup_append.mpr
    refine ⟨hv.contents, List.nodup_singleton _, ?_⟩
    intro a ha b hb heq
    obtain ⟨other, hother, rfl⟩ := List.mem_map.mp ha
    rw [List.mem_singleton.mp hb] at heq
    exact hnew other hother heq
  paths := by
    obtain ⟨hfiles, huploads, hdisjoint⟩ := List.nodup_append.mp hv.paths
    rw [ingested_paths hpath]
    apply List.nodup_append.mpr
    refine ⟨hfiles, ?_, ?_⟩
    · apply List.nodup_cons.mpr
      constructor
      · intro hmem
        exact (mem_pendingPaths_settle.mp hmem).2 rfl
      · exact (List.filter_sublist.map _).nodup huploads
    · intro a ha b hb heq
      apply hdisjoint a ha b _ heq
      rcases List.mem_cons.mp hb with hb | hb
      · rw [hb]
        exact hpending
      · exact (mem_pendingPaths_settle.mp hb).1
  fileIds other hother := by
    rcases List.mem_append.mp hother with hold | hlast
    · exact (hv.fileIds other hold).trans (Nat.lt_succ_self _)
    · rw [List.mem_singleton.mp hlast, hid]
      exact Nat.lt_succ_self _
  pathNames other hother := by
    apply Nat.lt_succ_of_lt
    apply hv.pathNames
    rw [ingested_paths hpath] at hother
    rcases List.mem_append.mp hother with hold | hrest
    · exact List.mem_append_left _ hold
    · apply List.mem_append_right
      rcases List.mem_cons.mp hrest with heq | hup
      · rw [heq]
        exact hpending
      · exact (mem_pendingPaths_settle.mp hup).1
  checked found hfound := (hv.checked found hfound).trans (Nat.lt_succ_self _)
  statuses other hother := by
    rcases List.mem_append.mp hother with hold | hlast
    · exact hv.statuses other hold
    · -- No check has named a file that was not there.
      have hnone : v.checksOf file.id = [] := by
        apply List.filter_eq_nil_iff.mpr
        intro found hfound hsame
        have hless := hv.checked found hfound
        rw [of_decide_eq_true hsame, hid] at hless
        exact Nat.lt_irrefl _ hless
      rw [List.mem_singleton.mp hlast, hstatus]
      show (v.checksOf file.id).map _ ++ _ = none :: (v.checksOf file.id).map _
      rw [hnone]
      rfl
  alerts := by
    show v.alerts = inserted TamperAlert.dedupeKey [] (List.filterMap _ _)
    rw [hv.alerts]
    unfold drafts
    congr 1
    apply List.filterMap_congr
    intro found hfound
    have hother : (file.id = found.fileId) = False := by
      have hless := hv.checked found (List.mem_of_mem_filter hfound)
      rw [hid]
      exact eq_false (Nat.ne_of_gt hless)
    rw [List.find?_append]
    simp [hother]

/-- A column that a check does not write. -/
theorem record_files {β : Type} {column : StoredFile → β} {file : StoredFile} {found : FileCheck}
    (h : ∀ (row : StoredFile) (status : Option IntegrityStatus) (checkedAt : Option Instant),
      column { row with integrityStatus := status, integrityCheckedAt := checkedAt } = column row) :
    (v.record file found).files.map column = v.files.map column :=
  map_updateIn fun row => h row _ _

theorem record_paths {file : StoredFile} {found : FileCheck} :
    (v.record file found).paths = v.paths := by
  unfold paths storedPaths
  rw [record_files fun _ _ _ => rfl]
  rfl

/-- Every row was there before, and is the same but for the columns of the last check. -/
theorem mem_record_files {file row : StoredFile} {found : FileCheck}
    (h : row ∈ (v.record file found).files) :
    ∃ old ∈ v.files, old.id = row.id ∧ old.contentSha256 = row.contentSha256 ∧
      old.storedPath = row.storedPath ∧
      row.integrityStatus = if old.id = file.id then some found.status else old.integrityStatus := by
  obtain ⟨old, hold, rfl⟩ := mem_updateIn.mp h
  refine ⟨old, hold, ?_⟩
  by_cases hid : old.id = file.id
  · rw [if_pos (List.mem_singleton.mpr hid), if_pos hid]
    exact ⟨rfl, rfl, rfl, rfl⟩
  · rw [if_neg (mt List.mem_singleton.mp hid), if_neg hid]
    exact ⟨rfl, rfl, rfl, rfl⟩

/-- The alerts that are drafted do not depend on what a check writes. -/
theorem drafts_record (hv : v.Sound) {file : StoredFile} (hfile : file ∈ v.files)
    {found : FileCheck} (hid : found.fileId = file.id) :
    (v.record file found).drafts =
      v.drafts ++ if found.status = .ok then [] else [found.alert file] := by
  have hfind : ∀ other : FileCheck,
      ((v.record file found).files.find? (·.id = other.fileId)).map other.alert =
        (v.files.find? (·.id = other.fileId)).map other.alert := by
    intro other
    show ((updateIn StoredFile.id [file.id] (fun row => { row with
      integrityStatus := some found.status
      integrityCheckedAt := some found.now }) v.files).find? _).map _ = _
    rw [find_updateIn, Option.map_map]
    · congr 1
      funext row
      simp only [Function.comp_apply]
      split <;> rfl
    · intro row
      rfl
  have hrow : v.files.find? (·.id = found.fileId) = some file := by
    rw [hid]
    exact find?_of_nodup hv.ids hfile
  unfold drafts
  rw [show (v.record file found).checks = v.checks ++ [found] from rfl, List.filter_append,
    List.filterMap_append]
  congr 1
  · exact List.filterMap_congr fun other _ => hfind other
  · by_cases hok : found.status = .ok
    · simp [hok]
    · simp [hok, hfind, hrow]

/-- A finding goes on from the status that the row had. -/
theorem Sound.recorded (hv : v.Sound) {file : StoredFile} {path : UploadPath} (actor : String)
    (now : Instant) (hfile : file ∈ v.files) :
    (v.record file (v.check lib file path actor now)).Sound where
  ids := by
    rw [record_files fun _ _ _ => rfl]
    exact hv.ids
  contents := by
    rw [record_files fun _ _ _ => rfl]
    exact hv.contents
  paths := by
    rw [record_paths]
    exact hv.paths
  fileIds row hrow := by
    obtain ⟨old, hold, hid, -, -, -⟩ := mem_record_files hrow
    rw [← hid]
    exact hv.fileIds old hold
  pathNames other hother := by
    rw [record_paths] at hother
    exact hv.pathNames other hother
  checked found hfound := by
    rcases List.mem_append.mp hfound with hold | hlast
    · exact hv.checked found hold
    · rw [List.mem_singleton.mp hlast]
      exact hv.fileIds file hfile
  statuses row hrow := by
    obtain ⟨old, hold, hid, -, -, hstatus⟩ := mem_record_files hrow
    have hbefore := hv.statuses old hold
    rw [hstatus, ← hid]
    unfold checksOf
    show ((v.checks ++ [v.check lib file path actor now]).filter _).map _ ++ _ =
      none :: ((v.checks ++ [v.check lib file path actor now]).filter _).map _
    rw [List.filter_append]
    by_cases hsame : old.id = file.id
    · obtain rfl := eq_of_key_eq hv.ids hold hfile hsame
      have hlast : [v.check lib old path actor now].filter (·.fileId = old.id) =
          [v.check lib old path actor now] := List.filter_eq_self.mpr (by simp [check])
      rw [hlast, if_pos rfl, List.map_append, List.map_append, ← List.cons_append]
      unfold checksOf at hbefore
      rw [← hbefore]
      rfl
    · have hlast : [v.check lib file path actor now].filter (·.fileId = old.id) = [] := by
        have hne : (v.check lib file path actor now).fileId ≠ old.id := fun h => hsame h.symm
        simp [hne]
      rw [hlast, if_neg hsame, List.append_nil]
      exact hbefore
  alerts := by
    rw [drafts_record hv hfile rfl, inserted_append, ← hv.alerts]
    rfl

/-- Every move keeps the records sound. -/
theorem Move.sound {exposed lost : UploadPath → Prop} {v' : Vault} (h : Move lib exposed lost v v')
    (hv : v.Sound) : v'.Sound := by
  cases h with
  | saved extension bankCode displayName bytes => exact hv.saved extension bankCode displayName bytes
  | looked mark => exact hv.looked mark
  | lost hlost => exact hv.settled _
  | discarded path hpending => exact (hv.settled path).disk _
  | ingested bankCode displayName now hpending hbytes hnew =>
    exact hv.ingested hpending hnew rfl rfl rfl
  | outside bytes hexposed => exact hv.overwritten _ bytes
  | recorded actor now hfile hpath => exact hv.recorded actor now hfile

theorem Moves.sound {exposed lost : UploadPath → Prop} {v' : Vault} (h : Moves lib exposed lost v v')
    (hv : v.Sound) : v'.Sound := by
  induction h with
  | refl => exact hv
  | tail _ hmove ih => exact hmove.sound ih

theorem run_moves {exposed lost : UploadPath → Prop} (hv : v.Sound) :
    ∀ (es : List VaultEvent), (∀ e ∈ es, ∀ path, e.exposes path → exposed path) →
      (∀ e ∈ es, ∀ path, e.loses path → lost path) →
      Moves lib exposed lost v (v.run lib banks es) := by
  intro es
  induction es generalizing v with
  | nil =>
    intro _ _
    exact .refl
  | cons e es ih =>
    intro he hl
    have hfirst : Moves lib exposed lost v (v.step lib banks e) :=
      step_moves hv.ids e (he e List.mem_cons_self) (hl e List.mem_cons_self)
    apply hfirst.trans
    exact ih (hfirst.sound hv) (fun other hother => he other (List.mem_cons_of_mem e hother))
      fun other hother => hl other (List.mem_cons_of_mem e hother)

theorem Sound.run (hv : v.Sound) (es : List VaultEvent) : (v.run lib banks es).Sound := by
  have hmoves : Moves lib (fun _ => True) (fun _ => True) v (v.run lib banks es) :=
    run_moves hv es (fun _ _ _ _ => trivial) fun _ _ _ _ => trivial
  exact hmoves.sound hv

/-- **The law of records.** Whatever is uploaded, refused, lost, verified or changed from outside, the
records stay sound. -/
theorem run_sound (lib : UploadLibrary) (banks : List BankFormats) (es : List VaultEvent) :
    (run lib banks {} es).Sound :=
  sound_empty.run es

end

end Vault

end Recon
