import ReconEngine.Ingestion.Streams
import ReconEngine.Store.Dict
import ReconEngine.Store.Inserts

/-!
# Stored files

An upload puts its bytes into a file, looks for a file with the same content, ingests the file in a
transaction and throws the bytes away when it is refused or fails. The look stands outside of the
clean-up: where the database does not answer it, the request ends and the bytes stay (`Vault.lookUp`).
A verification hashes the stored bytes again and compares with what was recorded; what it finds is kept
in the row and in the audit trail, and raises an alert if it is not what it should be. Between any two
of these steps the process may be lost and the directory may be changed from outside.

**What it does not establish.** Whether the pipeline accepts a file is given with the event that ends
the upload; what it writes besides the row is not part of the model. A commit that raises is taken not
to have happened: where the connection is lost on the way back, the row would be there and the bytes
thrown away.
-/

set_option autoImplicit false

namespace Recon

open Store

/-! ## The directory and the tables -/

/-- A file of the upload directory: a name that is used once, with an extension. -/
structure UploadPath where
  name : Id
  extension : String
deriving DecidableEq, Repr

inductive IntegrityStatus where
  | ok
  | tampered
  | missing
deriving DecidableEq, Repr

def IntegrityStatus.text : IntegrityStatus → String
  | .ok => "OK"
  | .tampered => "TAMPERED"
  | .missing => "MISSING"

/-- The columns of an ingestion file that the verification reads and writes. -/
structure StoredFile where
  id : Id
  bankCode : String
  originalFilename : String
  contentSha256 : String
  storedPath : Option UploadPath
  ingestedAt : Instant
  integrityStatus : Option IntegrityStatus := none
  integrityCheckedAt : Option Instant := none
deriving DecidableEq, Repr

/-- A saved file whose request is not over, with the digest of what was streamed. -/
structure PendingUpload where
  path : UploadPath
  bankCode : String
  displayName : String
  sha256 : String
  /-- No file with the same content was found. -/
  lookedUp : Bool := false
deriving DecidableEq, Repr

/-- What one verification found, as its audit entry has it, and the digest that it compared. -/
structure FileCheck where
  fileId : Id
  actor : String
  previous : Option IntegrityStatus
  status : IntegrityStatus
  expectedSha256 : String
  actualSha256 : Option String
  now : Instant
deriving DecidableEq, Repr

/-- The entry of a check. -/
def FileCheck.event (check : FileCheck) : AuditEvent where
  chainId := "ingestion"
  actorType := if check.actor.startsWith "system:" then "SYSTEM" else "USER"
  actorId := check.actor
  actionType := "FILE_VERIFY"
  affectedRecords := .dict [(.str "ingestion_file_id", .str (idText check.fileId))]
  rationale := "stored file re-hashed against the SHA-256 taken at ingestion"
  occurredAt := { utc := check.now }
  beforeState := .dict [(.str "integrity_status",
    match check.previous with
    | none => .none
    | some status => .str status.text)]
  afterState := .dict [(.str "integrity_status", .str check.status.text),
    (.str "expected_sha256", .str check.expectedSha256)]

/-- The logger takes every such event. -/
theorem FileCheck.event_accepted (check : FileCheck) : check.event.Accepted where
  actor := by
    unfold FileCheck.event
    dsimp only
    split
    · exact .inl rfl
    · exact .inr rfl
  aware := rfl
  affected := PyValue.accepted_dict (by simp)
  before := by
    apply PyValue.accepted_dict
    intro entry hentry
    obtain rfl := List.mem_singleton.mp hentry
    refine ⟨⟨_, rfl⟩, ?_⟩
    cases check.previous with
    | none => exact PyValue.accepted_none
    | some status => simp
  after := PyValue.accepted_dict (by simp)

structure TamperAlert where
  dedupeKey : String
  subject : String
  message : String
  bankCode : String
  routeTo : String
  createdAt : Instant
deriving DecidableEq, Repr

/-- The alert for a check that did not find what it should have; its key is shorter than the
column. -/
def FileCheck.alert (check : FileCheck) (file : StoredFile) : TamperAlert where
  dedupeKey := "tamper:" ++ idText check.fileId ++ ":" ++ check.actualSha256.getD "missing"
  subject := String.ofList (file.originalFilename.toList.take 200)
  message := file.originalFilename ++ " " ++
    if check.status = .missing then "can no longer be found on disk."
    else "no longer matches the SHA-256 recorded at ingestion."
  bankCode := file.bankCode
  routeTo := "compliance"
  createdAt := check.now

structure Vault where
  disk : Dict UploadPath Bytes := {}
  supply : Id := 0
  pending : List PendingUpload := []
  files : List StoredFile := []
  alerts : List TamperAlert := []
  checks : List FileCheck := []

/-! ## Uploads -/

def allowedExtensions : SourceFormat → List String
  | .csv => [".csv"]
  | .mt940 => [".mt940", ".sta", ".txt"]
  | .camt053 => [".xml"]

structure VaultUpload where
  principal : Principal
  bankCode : String
  formatType : SourceFormat
  filename : Option String
  chunks : List Bytes

/-- `_validate_target`: the extension of the file. -/
def validateTarget (lib : UploadLibrary) (banks : List BankFormats) (up : VaultUpload) :
    Except HttpError String :=
  match banks.find? (·.bankCode = up.bankCode) with
  | none => .error ⟨422, "unknown bank_code " ++ pythonRepr up.bankCode⟩
  | some config =>
    if up.formatType ∉ config.supportedFormats then
      .error ⟨422, up.bankCode ++ " does not support " ++ up.formatType.text⟩
    else
      let extension := extensionOf lib (up.filename.getD "")
      if extension ∉ allowedExtensions up.formatType then
        .error ⟨422, up.formatType.text ++ " files must end in one of: " ++
          ", ".intercalate (allowedExtensions up.formatType)⟩
      else .ok extension

def identicalContent : HttpError := ⟨409, "a file with identical content was already ingested"⟩

namespace Vault

variable (lib : UploadLibrary) (banks : List BankFormats)

/-- The first part of `upload_file`: the bytes are saved. -/
def save (v : Vault) (up : VaultUpload) : Except HttpError (Vault × UploadPath) := do
  if up.principal.role.atLeast .analyst = false then
    throw ⟨403, "role " ++ Role.analyst.text ++ " or higher is required"⟩
  let extension ← validateTarget lib banks up
  let bytes ← readStream maxUploadBytes up.chunks []
  let path : UploadPath := ⟨v.supply, extension⟩
  return ({ v with
    disk := v.disk.put path bytes
    supply := v.supply + 1
    pending := v.pending ++
      [⟨path, up.bankCode, safeDisplayName lib up.filename, lib.sha256 bytes, false⟩] }, path)

/-- The upload is over. -/
def settle (v : Vault) (path : UploadPath) : Vault :=
  { v with pending := v.pending.filter (·.path ≠ path) }

/-- `_discard`. -/
def discard (v : Vault) (path : UploadPath) : Vault :=
  { v.settle path with disk := v.disk.erase path }

/-- The second part: the look for a file with the same content. Where the database does not answer, the
request ends outside of every clean-up and the bytes stay. -/
def lookUp (v : Vault) (path : UploadPath) (answered : Bool) : Vault × Option HttpError :=
  match v.pending.find? (fun up => up.path = path ∧ up.lookedUp = false) with
  | none => (v, none)
  | some up =>
    if answered = false then (v.settle path, some internalServerError)
    else if v.files.any (·.contentSha256 = up.sha256) then (v.discard path, some identicalContent)
    else
      ({ v with pending := v.pending.map fun other =>
          { other with lookedUp := other.lookedUp || other.path = path } }, none)

/-- The last part: the transaction is committed when the pipeline accepts the file and no file has the
same content as it has now; otherwise the bytes are thrown away. -/
def finish (v : Vault) (path : UploadPath) (accepted : Bool) (now : Instant) : Vault :=
  match v.pending.find? (fun up => up.path = path ∧ up.lookedUp = true) with
  | none => v
  | some up =>
    match v.disk.get? path with
    | none => v.discard path
    | some bytes =>
      if accepted = true ∧ v.files.all (·.contentSha256 ≠ lib.sha256 bytes) then
        { v.settle path with
          supply := v.supply + 1
          files := v.files ++ [{
            id := v.supply
            bankCode := up.bankCode
            originalFilename := up.displayName
            contentSha256 := lib.sha256 bytes
            storedPath := some path
            ingestedAt := now }] }
      else v.discard path

/-! ## Verifications -/

/-- The digest of the bytes that are stored now. -/
def actualSha256 (v : Vault) (path : UploadPath) : Option String :=
  (v.disk.get? path).map lib.sha256

/-- What a verification of a file finds. -/
def statusOf (v : Vault) (file : StoredFile) (path : UploadPath) : IntegrityStatus :=
  match v.actualSha256 lib path with
  | none => .missing
  | some actual => if actual = file.contentSha256 then .ok else .tampered

/-- `FileVerifier.verify`, of a file that has a path. -/
def check (v : Vault) (file : StoredFile) (path : UploadPath) (actor : String) (now : Instant) :
    FileCheck where
  fileId := file.id
  actor := actor
  previous := file.integrityStatus
  status := v.statusOf lib file path
  expectedSha256 := file.contentSha256
  actualSha256 := v.actualSha256 lib path
  now := now

/-- What a check leaves. -/
def record (v : Vault) (file : StoredFile) (found : FileCheck) : Vault :=
  { v with
    files := updateIn StoredFile.id [file.id] (fun row => { row with
      integrityStatus := some found.status
      integrityCheckedAt := some found.now }) v.files
    alerts := inserted TamperAlert.dedupeKey v.alerts
      (if found.status = .ok then [] else [found.alert file])
    checks := v.checks ++ [found] }

/-- `verify_file`. -/
def verify (v : Vault) (principal : Principal) (fileId : Id) (now : Instant) :
    Except HttpError (Vault × IntegrityStatus) :=
  if principal.role.atLeast .analyst = false then
    .error ⟨403, "role " ++ Role.analyst.text ++ " or higher is required"⟩
  else match v.files.find? (·.id = fileId) with
    | none => .error ⟨404, "file not found"⟩
    | some file =>
      match file.storedPath with
      | none => .error ⟨409, "this file's bytes were not kept, so it cannot be re-verified"⟩
      | some path =>
        let found := v.check lib file path (apiActor principal) now
        .ok (v.record file found, found.status)

/-- The files that `verify_all` checks, the oldest first. -/
def stored (v : Vault) : List StoredFile :=
  (v.files.filter (·.storedPath.isSome)).mergeSort fun a b =>
    a.ingestedAt < b.ingestedAt ∨ a.ingestedAt = b.ingestedAt ∧ a.id ≤ b.id

/-- One turn of the loop of `verify_all`, with what was found before. -/
def verifyNext (actor : String) (now : Instant) (state : Vault × List IntegrityStatus)
    (file : StoredFile) : Vault × List IntegrityStatus :=
  match file.storedPath with
  | none => state
  | some path =>
    let found := state.1.check lib file path actor now
    (state.1.record file found, state.2 ++ [found.status])

end Vault

structure VerifyAllOut where
  checked : Nat
  ok : Nat
  tampered : Nat
  missing : Nat
deriving DecidableEq, Repr

namespace Vault

variable (lib : UploadLibrary) (banks : List BankFormats)

/-- `verify_all_files`. -/
def verifyAll (v : Vault) (principal : Principal) (now : Instant) :
    Except HttpError (Vault × VerifyAllOut) :=
  if principal.role.atLeast .admin = false then
    .error ⟨403, "role " ++ Role.admin.text ++ " or higher is required"⟩
  else
    let files := v.stored
    let (after, found) := files.foldl (verifyNext lib (apiActor principal) now) (v, [])
    .ok (after,
      { checked := files.length
        ok := found.count .ok
        tampered := found.count .tampered
        missing := found.count .missing })

end Vault

/-! ## What happens -/

inductive VaultEvent where
  | upload (up : VaultUpload)
  | lookUp (path : UploadPath) (answered : Bool)
  | finish (path : UploadPath) (accepted : Bool) (now : Instant)
  /-- The process is lost in the middle of an upload, or its clean-up raises before it comes to the
  bytes. -/
  | lose (path : UploadPath)
  /-- The directory is changed from outside: a file is written, or removed. -/
  | outside (path : UploadPath) (bytes : Option Bytes)
  | verify (principal : Principal) (fileId : Id) (now : Instant)
  | verifyAll (principal : Principal) (now : Instant)

/-- The path that an event changes from outside. -/
def VaultEvent.exposes : VaultEvent → UploadPath → Prop
  | .outside path _, other => other = path
  | _, _ => False

/-- The path whose upload ends without the clean-up. -/
def VaultEvent.loses : VaultEvent → UploadPath → Prop
  | .lose path, other => other = path
  | .lookUp path false, other => other = path
  | _, _ => False

namespace Vault

variable (lib : UploadLibrary) (banks : List BankFormats)

/-- The directory is changed from outside. -/
def overwrite (v : Vault) (path : UploadPath) : Option Bytes → Vault
  | none => { v with disk := v.disk.erase path }
  | some bytes => { v with disk := v.disk.put path bytes }

/-- A request that is refused leaves everything as it was. -/
def step (v : Vault) : VaultEvent → Vault
  | .upload up => ((v.save lib banks up).toOption.map Prod.fst).getD v
  | .lookUp path answered => (v.lookUp path answered).1
  | .finish path accepted now => v.finish lib path accepted now
  | .lose path => v.settle path
  | .outside path bytes => v.overwrite path bytes
  | .verify principal fileId now => ((v.verify lib principal fileId now).toOption.map Prod.fst).getD v
  | .verifyAll principal now => ((v.verifyAll lib principal now).toOption.map Prod.fst).getD v

def run (v : Vault) (es : List VaultEvent) : Vault := es.foldl (step lib banks) v

end Vault

end Recon
