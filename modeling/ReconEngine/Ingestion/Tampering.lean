import ReconEngine.Ingestion.VaultHistory

/-!
# Changed files

What a check says of a file, after whatever has happened since it was ingested.

**The law of tampering** (`run_detects`): a file that was ingested can be checked ever after, and the
check says whether its bytes are gone, are others or are those that were ingested; they are those where
nobody changed the file from outside, whatever else was uploaded, refused or lost, and where they are
not there is an alert. **The law of checks of all** (`verifyAll_checks`): every stored file is checked,
once, as it would be alone. **The law of the directory** (`run_accounted`): what lies in the directory
belongs to a row, to an upload in progress or to one that ended without its clean-up, or came from
outside.

**What it does not establish.** A file that was changed from outside and changed back is as it was for
every check; and two contents with one digest are the same to all of them.
-/

set_option autoImplicit false

namespace Recon

open Store

namespace Vault

variable {lib : UploadLibrary} {banks : List BankFormats}

section

variable {v v' : Vault} {exposed lost : UploadPath → Prop}

/-! ## Files that stay -/

/-- The rows stay, and so do the bytes that nobody changes from outside. -/
structure Keeps (exposed : UploadPath → Prop) (v v' : Vault) : Prop where
  rows : ∀ file ∈ v.files, ∃ row ∈ v'.files, row.id = file.id ∧
    row.contentSha256 = file.contentSha256 ∧ row.storedPath = file.storedPath
  bytes : ∀ file ∈ v.files, ∀ path, file.storedPath = some path → ¬exposed path →
    v'.disk.get? path = v.disk.get? path

theorem Keeps.refl (v : Vault) : Keeps exposed v v where
  rows := fun file hfile => ⟨file, hfile, rfl, rfl, rfl⟩
  bytes := fun _ _ _ _ _ => rfl

theorem Keeps.trans {w : Vault} (h : Keeps exposed v v') (h' : Keeps exposed v' w) :
    Keeps exposed v w where
  rows file hfile := by
    obtain ⟨row, hrow, hid, hsha, hpath⟩ := h.rows file hfile
    obtain ⟨row', hrow', hid', hsha', hpath'⟩ := h'.rows row hrow
    exact ⟨row', hrow', hid'.trans hid, hsha'.trans hsha, hpath'.trans hpath⟩
  bytes file hfile path hpath hexposed := by
    obtain ⟨row, hrow, -, -, hsame⟩ := h.rows file hfile
    rw [h'.bytes row hrow path (hsame.trans hpath) hexposed]
    exact h.bytes file hfile path hpath hexposed

theorem overwrite_files (path : UploadPath) (bytes : Option Bytes) :
    (v.overwrite path bytes).files = v.files := by
  cases bytes <;> rfl

/-- Other files stay when one is changed from outside. -/
theorem get?_overwrite_ne {path path' : UploadPath} (bytes : Option Bytes) (h : path' ≠ path) :
    (v.overwrite path bytes).disk.get? path' = v.disk.get? path' := by
  cases bytes with
  | none => exact (Dict.get?_erase v.disk path path').trans (if_neg h)
  | some bytes => exact Dict.get?_put_ne v.disk bytes h

/-- A move keeps the rows, and the bytes of files that are not exposed. -/
theorem Move.keeps (h : Move lib exposed lost v v') (hv : v.Sound) : Keeps exposed v v' := by
  cases h with
  | saved extension bankCode displayName bytes =>
    constructor
    · exact (Keeps.refl v : Keeps exposed v v).rows
    · intro file hfile path hpath _
      -- The name of the new file has not been used.
      apply Dict.get?_put_ne
      intro heq
      have hname := hv.pathNames path (List.mem_append_left _ (mem_storedPaths hfile hpath))
      rw [heq] at hname
      exact Nat.lt_irrefl _ hname
  | looked mark =>
    constructor
    · exact (Keeps.refl v : Keeps exposed v v).rows
    · exact (Keeps.refl v : Keeps exposed v v).bytes
  | lost hlost =>
    constructor
    · exact (Keeps.refl v : Keeps exposed v v).rows
    · exact (Keeps.refl v : Keeps exposed v v).bytes
  | discarded path hpending =>
    constructor
    · exact (Keeps.refl v : Keeps exposed v v).rows
    · intro file hfile other hother _
      show (v.disk.erase path).get? other = v.disk.get? other
      rw [Dict.get?_erase, if_neg (Ne.symm (hv.path_ne (mem_storedPaths hfile hother) hpending))]
  | ingested bankCode displayName now hpending hbytes hnew =>
    constructor
    · intro file hfile
      exact ⟨file, List.mem_append_left _ hfile, rfl, rfl, rfl⟩
    · intro file hfile path hpath _
      rfl
  | @outside changed bytes hexposed =>
    constructor
    · rw [overwrite_files]
      exact (Keeps.refl v : Keeps exposed v v).rows
    · intro file hfile path hpath hkept
      exact get?_overwrite_ne bytes fun heq => hkept (heq ▸ hexposed)
  | @recorded checked path actor now hchecked hpath =>
    constructor
    · intro file hfile
      refine ⟨_, mem_updateIn.mpr ⟨file, hfile, rfl⟩, ?_⟩
      split
      · exact ⟨rfl, rfl, rfl⟩
      · exact ⟨rfl, rfl, rfl⟩
    · intro file hfile path hpath _
      rfl

theorem Moves.keeps (h : Moves lib exposed lost v v') (hv : v.Sound) : Keeps exposed v v' := by
  induction h with
  | refl => exact Keeps.refl v
  | tail hmoves hmove ih => exact ih.trans (hmove.keeps (Moves.sound hmoves hv))

/-! ## One check -/

/-- A check records its finding in the row, the trail and the alerts. -/
theorem verify_eq (hv : v.Sound) {file : StoredFile} {path : UploadPath} (hfile : file ∈ v.files)
    (hpath : file.storedPath = some path) {principal : Principal}
    (hrole : principal.role.atLeast .analyst = true) (now : Instant) :
    v.verify lib principal file.id now =
      .ok (v.record file (v.check lib file path (apiActor principal) now),
        v.statusOf lib file path) := by
  unfold verify
  rw [if_neg (ne_false_of_eq_true hrole), find?_of_nodup hv.ids hfile]
  dsimp only
  rw [hpath]
  rfl

/-- A file is missing when its bytes are gone. -/
theorem statusOf_missing_iff {file : StoredFile} {path : UploadPath} :
    v.statusOf lib file path = .missing ↔ v.disk.get? path = none := by
  unfold statusOf actualSha256
  cases v.disk.get? path with
  | none => simp
  | some bytes =>
    simp only [Option.map_some, reduceCtorEq, iff_false]
    split <;> exact IntegrityStatus.noConfusion

theorem statusOf_ok_iff {file : StoredFile} {path : UploadPath} :
    v.statusOf lib file path = .ok ↔
      ∃ bytes, v.disk.get? path = some bytes ∧ lib.sha256 bytes = file.contentSha256 := by
  unfold statusOf actualSha256
  cases v.disk.get? path with
  | none => simp
  | some bytes =>
    simp only [Option.map_some, Option.some.injEq, exists_eq_left']
    split
    · rename_i h
      exact ⟨fun _ => h, fun _ => rfl⟩
    · rename_i h
      exact ⟨fun hok => IntegrityStatus.noConfusion hok, fun hok => absurd hok h⟩

/-- What a check that was not right leaves is in the alerts. -/
theorem mem_alerts_record {file : StoredFile} {found : FileCheck} (h : found.status ≠ .ok) :
    (found.alert file).dedupeKey ∈ (v.record file found).alerts.map (·.dedupeKey) := by
  show _ ∈ (inserted TamperAlert.dedupeKey v.alerts _).map _
  rw [if_neg h]
  by_cases hold : (found.alert file).dedupeKey ∈ v.alerts.map (·.dedupeKey)
  · rw [inserted_cons_of_mem hold, inserted_nil]
    exact hold
  · rw [inserted_cons_of_not_mem hold, inserted_nil, List.map_append]
    exact List.mem_append_right _ List.mem_cons_self

/-- An upload that is accepted leaves its bytes and its row. -/
theorem finish_accepted {path : UploadPath} {up : PendingUpload} {bytes : Bytes} (now : Instant)
    (hup : v.pending.find? (fun up => up.path = path ∧ up.lookedUp = true) = some up) (hbytes : v.disk.get? path = some bytes)
    (hnew : ∀ file ∈ v.files, file.contentSha256 ≠ lib.sha256 bytes) :
    (v.finish lib path true now).disk = v.disk ∧
      ∃ file ∈ (v.finish lib path true now).files, file.id = v.supply ∧
        file.contentSha256 = lib.sha256 bytes ∧ file.storedPath = some path := by
  unfold finish
  rw [hup]
  dsimp only
  rw [hbytes]
  dsimp only
  rw [if_pos ⟨rfl, List.all_eq_true.mpr fun file hfile => decide_eq_true (hnew file hfile)⟩]
  exact ⟨rfl, _, List.mem_append_right _ List.mem_cons_self, rfl, rfl, rfl⟩

end

/-- **The law of tampering.** A file that was ingested can be checked after any further events. The check
says that it is missing exactly when its bytes are gone, and that it is as it was exactly when they have
the digest that was taken; the latter is so where nobody changed it from outside, and otherwise there is
an alert that names the file and the digest of what was found. -/
theorem run_detects (lib : UploadLibrary) (banks : List BankFormats) (before after : List VaultEvent)
    {path : UploadPath} {up : PendingUpload} {bytes : Bytes} (ingestedAt : Instant)
    (hup : (run lib banks {} before).pending.find? (fun up => up.path = path ∧ up.lookedUp = true) =
      some up)
    (hbytes : (run lib banks {} before).disk.get? path = some bytes)
    (hnew : ∀ file ∈ (run lib banks {} before).files, file.contentSha256 ≠ lib.sha256 bytes)
    {principal : Principal} (hrole : principal.role.atLeast .analyst = true) (now : Instant) :
    let fileId := (run lib banks {} before).supply
    let v := run lib banks {} (before ++ .finish path true ingestedAt :: after)
    ∃ w status, v.verify lib principal fileId now = .ok (w, status) ∧
      (status = .missing ↔ v.disk.get? path = none) ∧
      (status = .ok ↔
        ∃ stored, v.disk.get? path = some stored ∧ lib.sha256 stored = lib.sha256 bytes) ∧
      ((∀ e ∈ after, ¬e.exposes path) → status = .ok) ∧
      (status ≠ .ok → "tamper:" ++ idText fileId ++ ":" ++
        ((v.disk.get? path).map lib.sha256).getD "missing" ∈ w.alerts.map (·.dedupeKey)) := by
  intro fileId v
  have hu : (run lib banks {} before).Sound := run_sound lib banks before
  obtain ⟨hdisk, file, hfile, hid, hsha, hpath⟩ := finish_accepted ingestedAt hup hbytes hnew
  have hu' : ((run lib banks {} before).finish lib path true ingestedAt).Sound :=
    @Sound.run lib banks _ hu [.finish path true ingestedAt]
  generalize hingested : (run lib banks {} before).finish lib path true ingestedAt = u' at *
  have hv : v = u'.run lib banks after := by
    rw [← hingested]
    exact List.foldl_append
  have hkeeps : Keeps (fun other => ∃ e ∈ after, e.exposes other) u' v := by
    have hmoves : Moves lib (fun other => ∃ e ∈ after, e.exposes other) (fun _ => True) u' v := by
      rw [hv]
      exact run_moves hu' after (fun e he _ h => ⟨e, he, h⟩) fun _ _ _ _ => trivial
    exact hmoves.keeps hu'
  obtain ⟨row, hrow, hid', hsha', hpath'⟩ := hkeeps.rows file hfile
  rw [hpath] at hpath'
  have hfileId : row.id = fileId := hid'.trans hid
  have hsound : v.Sound := hv ▸ hu'.run after
  have hverify : v.verify lib principal row.id now = _ := verify_eq hsound hrow hpath' hrole now
  rw [hfileId] at hverify
  refine ⟨_, _, hverify, statusOf_missing_iff, ?_, ?_, ?_⟩
  · rw [statusOf_ok_iff, hsha', hsha]
  · intro hafter
    rw [statusOf_ok_iff, hsha', hsha]
    have hkept : v.disk.get? path = u'.disk.get? path := by
      apply hkeeps.bytes file hfile path hpath
      intro hexposed
      obtain ⟨e, he, h⟩ := hexposed
      exact hafter e he h
    exact ⟨bytes, by rw [hkept, hdisk, hbytes], rfl⟩
  · intro hstatus
    have hfound : (v.check lib row path (apiActor principal) now).status ≠ .ok := hstatus
    have halert := @mem_alerts_record v row _ hfound
    rw [← hfileId]
    exact halert

/-- A statement without transactions. -/
def emptyStatement : Bytes :=
  "Transaction Reference,Value Date,Amount,Dr/Cr,Counterparty Name,Narration\n".toList.map
    fun c => UInt8.ofNat c.toNat

/-- What the library does with that statement and with names in ASCII. -/
def emptyStatementLibrary : UploadLibrary where
  isPrintable c := 32 ≤ c.toNat && c.toNat < 127
  lower := Char.toLower
  sha256 bytes := if bytes = emptyStatement then
    "3ab4edb60b45142ba98b60d067d555393ab85ea7a58b8017b511c0618f29f400" else ""

def emptyStatementUpload : VaultEvent :=
  .upload ⟨⟨"ops", .analyst⟩, "HDFC", .csv, some "may.csv", [emptyStatement]⟩

def hdfcFormats : List BankFormats := [⟨"HDFC", "Asia/Kolkata", "INR", [.csv], none, none⟩]

/-- The file is removed. -/
theorem run_detects_removed :
    ∃ w, (run emptyStatementLibrary hdfcFormats {} [emptyStatementUpload, .lookUp ⟨0, ".csv"⟩ true,
      .finish ⟨0, ".csv"⟩ true 10, .outside ⟨0, ".csv"⟩ none]).verify emptyStatementLibrary
        ⟨"ops", .analyst⟩ 1 20 = .ok (w, .missing) := by
  obtain ⟨w, status, hverify, hmissing, -⟩ := @run_detects emptyStatementLibrary hdfcFormats
    [emptyStatementUpload, .lookUp ⟨0, ".csv"⟩ true] [.outside ⟨0, ".csv"⟩ none] ⟨0, ".csv"⟩
    ⟨⟨0, ".csv"⟩, "HDFC", "may.csv",
      "3ab4edb60b45142ba98b60d067d555393ab85ea7a58b8017b511c0618f29f400", true⟩ emptyStatement 10 (by decide) (by decide) (by decide)
    ⟨"ops", .analyst⟩ (by decide) 20
  have hgone : status = .missing := hmissing.mpr (by decide)
  rw [hgone] at hverify
  exact ⟨w, hverify⟩

/-! ## A check of all -/

section

variable {v v' : Vault}

/-- A row when its file has been checked. -/
def checkedRow (lib : UploadLibrary) (v : Vault) (now : Instant) (file : StoredFile) : StoredFile :=
  match file.storedPath with
  | none => file
  | some path => { file with
    integrityStatus := some (v.statusOf lib file path)
    integrityCheckedAt := some now }

theorem checkedRow_of_some {now : Instant} {file : StoredFile} {path : UploadPath}
    (hpath : file.storedPath = some path) :
    v.checkedRow lib now file = { file with
      integrityStatus := some (v.statusOf lib file path)
      integrityCheckedAt := some now } := by
  unfold checkedRow
  split
  · rename_i hnone
    rw [hpath] at hnone
    cases hnone
  · rename_i other hsome
    rw [hpath] at hsome
    cases hsome
    rfl

theorem checkedRow_of_none {now : Instant} {file : StoredFile} (hpath : file.storedPath = none) :
    v.checkedRow lib now file = file := by
  unfold checkedRow
  rw [hpath]

theorem checkedRow_id (now : Instant) (file : StoredFile) :
    (v.checkedRow lib now file).id = file.id := by
  unfold checkedRow
  split <;> rfl

/-- What the stored files are found to be. -/
def statuses (lib : UploadLibrary) (v : Vault) (files : List StoredFile) : List IntegrityStatus :=
  files.filterMap fun file => file.storedPath.map (v.statusOf lib file)

theorem verifyNext_disk (actor : String) (now : Instant) (state : Vault × List IntegrityStatus)
    (file : StoredFile) : (verifyNext lib actor now state file).1.disk = state.1.disk := by
  unfold verifyNext
  split <;> rfl

/-- A status depends on the bytes alone. -/
theorem statusOf_congr (h : v'.disk = v.disk) : v'.statusOf lib = v.statusOf lib := by
  unfold statusOf actualSha256
  rw [h]

theorem checkedRow_congr (h : v'.disk = v.disk) : v'.checkedRow lib = v.checkedRow lib := by
  unfold checkedRow
  rw [statusOf_congr h]

/-- A check of all finds what each check finds. -/
theorem verifyNext_found (actor : String) (now : Instant) :
    ∀ (files : List StoredFile) (state : Vault × List IntegrityStatus),
      (files.foldl (verifyNext lib actor now) state).2 = state.2 ++ state.1.statuses lib files := by
  intro files
  induction files with
  | nil =>
    intro state
    exact (List.append_nil _).symm
  | cons file files ih =>
    intro state
    rw [List.foldl_cons, ih]
    unfold statuses
    rw [statusOf_congr (verifyNext_disk actor now state file)]
    cases hpath : file.storedPath with
    | none => rw [verifyNext_of_none hpath, List.filterMap_cons_none (by rw [hpath]; rfl)]
    | some path =>
      rw [verifyNext_eq hpath, List.filterMap_cons_some (by rw [hpath]; rfl), List.append_assoc]
      rfl

/-- One check, in a table where identifiers are distinct. -/
theorem verifyNext_files {actor : String} {now : Instant} {state : Vault × List IntegrityStatus}
    (hids : (state.1.files.map (·.id)).Nodup) {file : StoredFile} (hfile : file ∈ state.1.files) :
    (verifyNext lib actor now state file).1.files =
      state.1.files.map fun row => if row = file then state.1.checkedRow lib now row else row := by
  cases hpath : file.storedPath with
  | none =>
    rw [verifyNext_of_none hpath]
    conv_lhs => rw [← List.map_id state.1.files]
    apply List.map_congr_left
    intro row _
    split
    · rename_i heq
      rw [heq, checkedRow_of_none hpath]
      rfl
    · rfl
  | some path =>
    rw [verifyNext_eq hpath]
    apply List.map_congr_left
    intro row hrow
    by_cases heq : row = file
    · rw [if_pos heq, heq, if_pos (List.mem_singleton.mpr rfl), checkedRow_of_some hpath]
      rfl
    · have hne : row.id ≠ file.id := fun hid => heq (eq_of_key_eq hids hrow hfile hid)
      rw [if_neg heq, if_neg (mt List.mem_singleton.mp hne)]

theorem verifyNext_rows (actor : String) (now : Instant) :
    ∀ (files : List StoredFile) (state : Vault × List IntegrityStatus),
      (files.map (·.id)).Nodup → (state.1.files.map (·.id)).Nodup →
      (∀ file ∈ files, file ∈ state.1.files) →
      (files.foldl (verifyNext lib actor now) state).1.files =
        state.1.files.map fun row => if row ∈ files then state.1.checkedRow lib now row else row := by
  intro files
  induction files with
  | nil =>
    intro state _ _ _
    exact (List.map_id'' (fun row => if_neg List.not_mem_nil) _).symm
  | cons file files ih =>
    intro state hnodup hids hfiles
    obtain ⟨hnew, hrest⟩ := List.nodup_cons.mp hnodup
    have hnot : ∀ row : StoredFile, row.id = file.id → row ∉ files := by
      intro row hid hrow
      have hmem : row.id ∈ files.map (·.id) := List.mem_map_of_mem hrow
      rw [hid] at hmem
      exact hnew hmem
    have hfirst := @verifyNext_files lib actor now state hids file (hfiles file List.mem_cons_self)
    rw [List.foldl_cons, ih _ hrest, hfirst, List.map_map]
    · apply List.map_congr_left
      intro row _
      rw [Function.comp_apply, checkedRow_congr (verifyNext_disk actor now state file)]
      by_cases heq : row = file
      · rw [if_pos heq, if_neg (hnot _ ((checkedRow_id now row).trans (congrArg _ heq))),
          if_pos (heq ▸ List.mem_cons_self)]
      · rw [if_neg heq]
        simp only [List.mem_cons, heq, false_or]
    · rw [hfirst, List.map_map]
      have hsame : ∀ row ∈ state.1.files, ((·.id) ∘ fun row =>
          if row = file then state.1.checkedRow lib now row else row) row = StoredFile.id row := by
        intro row _
        rw [Function.comp_apply]
        split
        · exact checkedRow_id now row
        · rfl
      rw [List.map_congr_left hsame]
      exact hids
    · intro other hother
      apply verifyNext_others (hfiles other (List.mem_cons_of_mem file hother))
      intro hid
      exact hnot other hid hother

/-- The order of the checks does not matter to what they find. -/
theorem statuses_stored (lib : UploadLibrary) (v : Vault) :
    (v.statuses lib v.stored).Perm (v.statuses lib v.files) := by
  have hkept : v.statuses lib (v.files.filter (·.storedPath.isSome)) = v.statuses lib v.files := by
    unfold statuses
    rw [List.filterMap_filter]
    apply List.filterMap_congr
    intro file _
    cases file.storedPath with
    | none => rfl
    | some path => rfl
  rw [← hkept]
  exact (List.mergeSort_perm _ _).filterMap _

theorem length_statuses (lib : UploadLibrary) (v : Vault) :
    (v.statuses lib v.files).length = v.storedPaths.length := by
  unfold statuses storedPaths
  rw [List.filterMap_map, List.length_filterMap_eq_countP, List.length_filterMap_eq_countP]
  apply List.countP_congr
  intro file _
  rw [Option.isSome_map]
  rfl

theorem length_stored (v : Vault) : v.stored.length = v.storedPaths.length := by
  unfold stored storedPaths
  rw [(List.mergeSort_perm _ _).length_eq, List.filterMap_map, List.length_filterMap_eq_countP,
    List.countP_eq_length_filter]
  rfl

theorem length_eq_counts (found : List IntegrityStatus) :
    found.length = found.count .ok + found.count .tampered + found.count .missing := by
  induction found with
  | nil => rfl
  | cons status found ih =>
    rw [List.length_cons, ih]
    cases status <;> simp <;> omega

end

/-- **The law of checks of all.** Every stored file gets the status that it would get alone, every one is
counted once, and nothing but the two columns of the rows changes among the files. -/
theorem verifyAll_checks (lib : UploadLibrary) (banks : List BankFormats) (es : List VaultEvent)
    {principal : Principal} (hrole : principal.role.atLeast .admin = true) (now : Instant) :
    let v := run lib banks {} es
    ∃ w out, v.verifyAll lib principal now = .ok (w, out) ∧
      w.files = v.files.map (v.checkedRow lib now) ∧
      out.checked = v.storedPaths.length ∧
      out.ok = (v.statuses lib v.files).count .ok ∧
      out.tampered = (v.statuses lib v.files).count .tampered ∧
      out.missing = (v.statuses lib v.files).count .missing ∧
      out.checked = out.ok + out.tampered + out.missing := by
  intro v
  have hv : v.Sound := run_sound lib banks es
  let checks := v.stored.foldl (verifyNext lib (apiActor principal) now) (v, [])
  have hcount : ∀ status, checks.2.count status = (v.statuses lib v.files).count status := by
    intro status
    rw [verifyNext_found, List.nil_append]
    exact (statuses_stored lib v).count_eq status
  refine ⟨checks.1, ⟨v.stored.length, checks.2.count .ok, checks.2.count .tampered,
    checks.2.count .missing⟩, ?_, ?_, length_stored v, hcount .ok, hcount .tampered,
    hcount .missing, ?_⟩
  · exact if_neg (ne_false_of_eq_true hrole)
  · rw [verifyNext_rows _ now v.stored (v, []) (stored_nodup hv.ids) hv.ids
      fun file hfile => (mem_stored.mp hfile).1]
    apply List.map_congr_left
    intro file hfile
    split
    · rfl
    · rename_i hnot
      rw [checkedRow_of_none]
      rw [mem_stored, not_and, Bool.not_eq_true, Option.isSome_eq_false_iff] at hnot
      exact Option.isNone_iff_eq_none.mp (hnot hfile)
  · dsimp only
    rw [hcount, hcount, hcount, length_stored, ← length_statuses lib v]
    exact length_eq_counts _

/-- One file, as it was ingested. -/
theorem verifyAll_checks_one :
    ∃ w out, (run emptyStatementLibrary hdfcFormats {} [emptyStatementUpload,
      .lookUp ⟨0, ".csv"⟩ true, .finish ⟨0, ".csv"⟩ true 10]).verifyAll emptyStatementLibrary ⟨"root", .admin⟩ 20 =
        .ok (w, out) ∧ out.checked = 1 ∧ out.ok = 1 := by
  obtain ⟨w, out, hverify, -, hchecked, hok, -⟩ := @verifyAll_checks emptyStatementLibrary
    hdfcFormats [emptyStatementUpload, .lookUp ⟨0, ".csv"⟩ true, .finish ⟨0, ".csv"⟩ true 10]
    ⟨"root", .admin⟩ (by decide) 20
  exact ⟨w, out, hverify, hchecked.trans (by decide), hok.trans (by decide)⟩

/-! ## The directory -/

/-- What lies in the directory, where some paths were changed from outside and the uploads to some ended
without their clean-up. -/
structure Accounted (lib : UploadLibrary) (exposed lost : UploadPath → Prop) (v : Vault) : Prop where
  placed : ∀ path, v.disk.get? path ≠ none → path ∈ v.paths ∨ lost path ∨ exposed path
  pending : ∀ path ∈ v.pendingPaths, ¬exposed path → v.disk.get? path ≠ none
  intact : ∀ file ∈ v.files, ∀ path, file.storedPath = some path → ¬exposed path →
    ∃ bytes, v.disk.get? path = some bytes ∧ lib.sha256 bytes = file.contentSha256
  alarms : ∀ found ∈ v.checks, found.status ≠ .ok → ∃ file ∈ v.files, file.id = found.fileId ∧
    ∃ path, file.storedPath = some path ∧ exposed path

section

variable {v v' : Vault} {exposed lost : UploadPath → Prop}

theorem accounted_empty : Accounted lib exposed lost {} where
  placed := fun _ h => absurd rfl h
  pending := fun _ h => absurd h List.not_mem_nil
  intact := fun _ h => absurd h List.not_mem_nil
  alarms := fun _ h => absurd h List.not_mem_nil

/-- The files that were there stay intact. -/
theorem Accounted.intact_of_keeps (ha : v.Accounted lib exposed lost) (hkeeps : Keeps exposed v v')
    {file : StoredFile} (hfile : file ∈ v.files) {path : UploadPath}
    (hpath : file.storedPath = some path) (hkept : ¬exposed path) :
    ∃ bytes, v'.disk.get? path = some bytes ∧ lib.sha256 bytes = file.contentSha256 := by
  rw [hkeeps.bytes file hfile path hpath hkept]
  exact ha.intact file hfile path hpath hkept

/-- The alarms that were right stay right. -/
theorem Accounted.alarms_of_keeps (ha : v.Accounted lib exposed lost) (hkeeps : Keeps exposed v v')
    {found : FileCheck} (hfound : found ∈ v.checks) (hstatus : found.status ≠ .ok) :
    ∃ file ∈ v'.files, file.id = found.fileId ∧
      ∃ path, file.storedPath = some path ∧ exposed path := by
  obtain ⟨file, hfile, hid, path, hpath, hexposed⟩ := ha.alarms found hfound hstatus
  obtain ⟨row, hrow, hid', -, hpath'⟩ := hkeeps.rows file hfile
  exact ⟨row, hrow, hid'.trans hid, path, hpath'.trans hpath, hexposed⟩

/-- A path in use whose upload ends is that upload's, or is still in use. -/
theorem mem_paths_settle {path path' : UploadPath} (h : path' ∈ v.paths) :
    path' = path ∨ path' ∈ (v.settle path).paths := by
  rcases List.mem_append.mp h with hstored | hpending
  · exact .inr (List.mem_append_left _ hstored)
  · by_cases heq : path' = path
    · exact .inl heq
    · exact .inr (List.mem_append_right _ (mem_pendingPaths_settle.mpr ⟨hpending, heq⟩))

/-- A move leaves no bytes behind that nothing accounts for. -/
theorem Move.accounted (h : Move lib exposed lost v v') (hv : v.Sound)
    (ha : v.Accounted lib exposed lost) : v'.Accounted lib exposed lost := by
  have hkeeps : Keeps exposed v v' := h.keeps hv
  cases h with
  | saved extension bankCode displayName bytes =>
    constructor
    · intro path hplaced
      by_cases heq : path = ⟨v.supply, extension⟩
      · rw [heq]
        exact .inl (List.mem_append_right _
          (List.mem_map_of_mem (List.mem_append_right _ List.mem_cons_self)))
      · have hold : v.disk.get? path ≠ none := by
          rw [← Dict.get?_put_ne v.disk bytes heq]
          exact hplaced
        apply (ha.placed path hold).imp_left
        intro hpath
        unfold paths pendingPaths
        rw [List.map_append, ← List.append_assoc]
        exact List.mem_append_left _ hpath
    · intro path hpath hkept
      show (v.disk.put _ bytes).get? path ≠ none
      rw [Dict.get?_put]
      split
      · exact Option.some_ne_none bytes
      · rename_i hne
        obtain ⟨up, hup, rfl⟩ := List.mem_map.mp hpath
        rcases List.mem_append.mp hup with hold | hlast
        · exact ha.pending up.path (List.mem_map_of_mem hold) hkept
        · exact absurd (congrArg PendingUpload.path (List.mem_singleton.mp hlast)) hne
    · intro file hfile path hpath hkept
      exact ha.intact_of_keeps hkeeps hfile hpath hkept
    · intro found hfound hstatus
      exact ha.alarms_of_keeps hkeeps hfound hstatus
  | looked mark =>
    constructor
    · rw [looked_paths]
      exact ha.placed
    · intro path hpath
      unfold pendingPaths at hpath
      rw [List.map_map] at hpath
      exact ha.pending path hpath
    · exact ha.intact
    · exact ha.alarms
  | @lost path hlost =>
    constructor
    · intro other hplaced
      rcases ha.placed other hplaced with hused | hother
      · rcases mem_paths_settle hused with heq | hstill
        · rw [heq]
          exact .inr (.inl hlost)
        · exact .inl hstill
      · exact .inr hother
    · intro other hother hkept
      exact ha.pending other (mem_pendingPaths_settle.mp hother).1 hkept
    · exact ha.intact
    · exact ha.alarms
  | discarded path hpending =>
    constructor
    · intro other hplaced
      have herase : (v.disk.erase path).get? other ≠ none := hplaced
      rw [Dict.get?_erase] at herase
      split at herase
      · exact absurd rfl herase
      · rename_i hne
        apply (ha.placed other herase).imp_left
        intro hused
        exact (mem_paths_settle hused).resolve_left hne
    · intro other hother hkept
      obtain ⟨hold, hne⟩ := mem_pendingPaths_settle.mp hother
      show (v.disk.erase path).get? other ≠ none
      rw [Dict.get?_erase, if_neg hne]
      exact ha.pending other hold hkept
    · intro file hfile other hother hkept
      exact ha.intact_of_keeps hkeeps hfile hother hkept
    · intro found hfound hstatus
      exact ha.alarms_of_keeps hkeeps hfound hstatus
  | @ingested path bankCode displayName bytes now hpending hbytes hnew =>
    constructor
    · intro other hplaced
      apply (ha.placed other hplaced).imp_left
      intro hused
      rw [ingested_paths rfl, List.mem_append, List.mem_cons]
      rcases mem_paths_settle hused with heq | hstill
      · exact .inr (.inl heq)
      · exact (List.mem_append.mp hstill).imp_right .inr
    · intro other hother hkept
      exact ha.pending other (mem_pendingPaths_settle.mp hother).1 hkept
    · intro file hfile other hother hkept
      rcases List.mem_append.mp hfile with hold | hlast
      · exact ha.intact file hold other hother hkept
      · obtain rfl := List.mem_singleton.mp hlast
        cases hother
        exact ⟨bytes, hbytes, rfl⟩
    · intro found hfound hstatus
      exact ha.alarms_of_keeps hkeeps hfound hstatus
  | @outside changed bytes hexposed =>
    have htables : (v.overwrite changed bytes).paths = v.paths ∧
        (v.overwrite changed bytes).pendingPaths = v.pendingPaths ∧
        (v.overwrite changed bytes).checks = v.checks := by
      cases bytes <;> exact ⟨rfl, rfl, rfl⟩
    obtain ⟨hpaths, hpending, hchecks⟩ := htables
    constructor
    · intro path hplaced
      by_cases heq : path = changed
      · rw [heq]
        exact .inr (.inr hexposed)
      · rw [hpaths]
        apply ha.placed path
        rw [← get?_overwrite_ne bytes heq]
        exact hplaced
    · intro path hpath hkept
      rw [hpending] at hpath
      have hne : path ≠ changed := fun heq => hkept (heq ▸ hexposed)
      rw [get?_overwrite_ne bytes hne]
      exact ha.pending path hpath hkept
    · intro file hfile path hpath hkept
      rw [overwrite_files] at hfile
      exact ha.intact_of_keeps hkeeps hfile hpath hkept
    · intro found hfound hstatus
      rw [hchecks] at hfound
      exact ha.alarms_of_keeps hkeeps hfound hstatus
  | @recorded file path actor now hfile hpath =>
    constructor
    · intro other hplaced
      rw [record_paths]
      exact ha.placed other hplaced
    · exact ha.pending
    · intro row hrow other hother hkept
      obtain ⟨old, hold, -, hsha, hsame, -⟩ := mem_record_files hrow
      rw [← hsha]
      exact ha.intact old hold other (hsame.trans hother) hkept
    · intro found hfound hstatus
      rcases List.mem_append.mp hfound with hold | hlast
      · exact ha.alarms_of_keeps hkeeps hold hstatus
      · obtain rfl := List.mem_singleton.mp hlast
        obtain ⟨row, hrow, hid, -, hpath'⟩ := hkeeps.rows file hfile
        refine ⟨row, hrow, hid, path, hpath'.trans hpath, ?_⟩
        by_contra hkept
        exact hstatus (statusOf_ok_iff.mpr (ha.intact file hfile path hpath hkept))

theorem Moves.accounted (h : Moves lib exposed lost v v') (hv : v.Sound)
    (ha : v.Accounted lib exposed lost) : v'.Accounted lib exposed lost := by
  induction h with
  | refl => exact ha
  | tail hmoves hmove ih => exact hmove.accounted (Moves.sound hmoves hv) ih

end

/-- **The law of the directory.** After any events, every file in the directory is in use by a row or an
upload, or its upload ended without the clean-up (its process was lost, its look for the same content
was not answered, or the clean-up itself raised), or it was changed from outside; every one in use that was not changed
from outside is there, with what was ingested if there is a row for it; and only a file that was changed
from outside has ever been found wrong. -/
theorem run_accounted (lib : UploadLibrary) (banks : List BankFormats) (es : List VaultEvent) :
    (run lib banks {} es).Accounted lib (fun path => ∃ e ∈ es, e.exposes path)
      (fun path => ∃ e ∈ es, e.loses path) := by
  have hmoves : Moves lib (fun path => ∃ e ∈ es, e.exposes path)
      (fun path => ∃ e ∈ es, e.loses path) {} (run lib banks {} es) :=
    run_moves sound_empty es (fun e he _ h => ⟨e, he, h⟩) fun e he _ h => ⟨e, he, h⟩
  exact hmoves.accounted sound_empty accounted_empty

end Vault

end Recon
