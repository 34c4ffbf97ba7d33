import ReconEngine.Exceptions.Handling
import ReconEngine.Store.System

/-!
# Users and keys

A request shows a key; the role of the key decides what it may do. An administrator creates users,
issues keys to them and deactivates them, and each of these leaves an entry in the audit trail.
Keys without a user are made from the command line.

The tables are a store of their own. An insertion waits for another transaction that inserts the
same unique value; the deactivation of a user holds the user's row. The insertion of a key does not
wait for a deactivation here, as the foreign key makes it do in the database, so that more can
happen in the model than there. A request relies on what it has read only as far as rows move
forward, which is what its mark says.

**What it does not establish.** That a key is secret: it is compared by its digest, and who has read
it has it. Requests in full, with what others do in between, are `Api.AccessRuns`.
-/

set_option autoImplicit false

namespace Recon

open Store
open Store.Prog hiding pure bind

/-! ## The tables -/

structure User where
  id : Id
  username : String
  email : Option String
  role : Role
  isActive : Bool := true
  createdAt : Instant
deriving DecidableEq, Repr

structure ApiKey where
  id : Id
  keyHash : String
  name : String
  role : Role
  revokedAt : Option Instant := none
  userId : Option Id := none
deriving DecidableEq, Repr

/-- The tables, with the events of the chain of users in the order in which they were appended. -/
structure AccessDb where
  users : List User := []
  apiKeys : List ApiKey := []
  events : List AuditEvent := []

inductive AccessWrite where
  | insertUser (user : User)
  | insertKey (key : ApiKey)
  | deactivate (userId : Id)
  /-- The keys are revoked that are not revoked yet. -/
  | revoke (ids : List Id) (now : Instant)
  | record (event : AuditEvent)

def AccessWrite.apply (w : AccessWrite) (d : AccessDb) : AccessDb :=
  match w with
  | .insertUser user => { d with users := d.users ++ [user] }
  | .insertKey key => { d with apiKeys := d.apiKeys ++ [key] }
  | .deactivate userId =>
    { d with users := updateIn User.id [userId] (fun user => { user with isActive := false }) d.users }
  | .revoke ids now =>
    { d with
      apiKeys := updateIn ApiKey.id ids
        (fun key => { key with revokedAt := key.revokedAt.or (some now) }) d.apiKeys }
  | .record event => { d with events := d.events ++ [event] }

/-- Rows, unique values and the chain of users. -/
inductive AccessLock where
  | user (id : Id)
  | username (username : String)
  | key (id : Id)
  | keyHash (keyHash : String)
  | keyName (name : String)
  | chain
deriving DecidableEq, Repr

/-- The one mark: that rows only move forward. -/
inductive AccessMark where
  | forward
deriving DecidableEq, Repr

/-- A response that is not a success. -/
structure HttpError where
  status : Nat
  detail : String
deriving DecidableEq, Repr

/-- What the handler of errors that nobody expects answers. -/
def internalServerError : HttpError := ⟨500, "internal server error"⟩

def accessSchema : Schema where
  Db := AccessDb
  Lock := AccessLock
  Mark := AccessMark
  Write := AccessWrite
  Err := HttpError
  apply := AccessWrite.apply
  transient _ := false

instance : DecidableEq accessSchema.Lock := inferInstanceAs (DecidableEq AccessLock)

abbrev AccessProg := Store.Prog accessSchema

/-! ## Authentication -/

def ApiKey.principal (key : ApiKey) : Principal := ⟨key.name, key.role⟩

namespace AccessDb

variable (d : AccessDb)

/-- The key belongs to no user, or to one that is active. -/
def ownerActive (key : ApiKey) : Bool :=
  match key.userId with
  | none => true
  | some userId => d.users.any fun user => user.id = userId ∧ user.isActive = true

/-- The query of `authenticate`. -/
def principal (keyHash : String) : Option Principal :=
  (d.apiKeys.find? fun key =>
    key.keyHash = keyHash ∧ key.revokedAt = none ∧ d.ownerActive key = true).map ApiKey.principal

end AccessDb

def unauthorized : HttpError := ⟨401, "missing or invalid API key"⟩

/-- The digest of keys. -/
structure Access where
  hashApiKey : String → String

namespace Access

variable (access : Access)

def authenticate (rawKey : Option String) : AccessProg Principal :=
  match rawKey.filter (· ≠ "") with
  | none => .fail unauthorized
  | some raw => do
    let d ← viewing fun _ => [AccessMark.forward]
    match d.principal (access.hashApiKey raw) with
    | none => .fail unauthorized
    | some principal => return principal

/-- `RoleRequirement`. -/
def requireRole (required : Role) (rawKey : Option String) : AccessProg Principal := do
  let principal ← access.authenticate rawKey
  require (principal.role.atLeast required)
    ⟨403, "role " ++ required.text ++ " or higher is required"⟩
  return principal

end Access

/-! ## What changes, and how it is recorded -/

inductive AccountChange where
  | created (userId : Id) (username : String) (role : Role)
  | issued (userId keyId : Id) (name : String) (role : Role)
  | deactivated (userId : Id) (username : String) (keysRevoked : Nat)
deriving DecidableEq, Repr

namespace AccountChange

def rationale : AccountChange → String
  | .created _ username _ => "user " ++ username ++ " created"
  | .issued _ _ name _ => "API key " ++ name ++ " issued"
  | .deactivated _ username _ => "user " ++ username ++ " deactivated"

def affected : AccountChange → PyValue
  | .created userId _ _ => .dict [(.str "user_id", .str (idText userId))]
  | .issued userId keyId _ _ =>
    .dict [(.str "user_id", .str (idText userId)), (.str "api_key_id", .str (idText keyId))]
  | .deactivated userId _ _ => .dict [(.str "user_id", .str (idText userId))]

def before : AccountChange → PyValue
  | .deactivated _ _ _ => .dict [(.str "is_active", .bool true)]
  | _ => .none

def after : AccountChange → PyValue
  | .created _ username role =>
    .dict [(.str "username", .str username), (.str "role", .str role.text),
      (.str "is_active", .bool true)]
  | .issued _ _ name role => .dict [(.str "name", .str name), (.str "role", .str role.text)]
  | .deactivated _ _ keysRevoked =>
    .dict [(.str "is_active", .bool false), (.str "keys_revoked", .int keysRevoked)]

/-- What the entry says. -/
def event (change : AccountChange) (actor : Principal) (now : Instant) : AuditEvent where
  chainId := "users"
  actorType := "USER"
  actorId := apiActor actor
  actionType := "CONFIG_CHANGE"
  affectedRecords := change.affected
  rationale := change.rationale
  occurredAt := { utc := now }
  beforeState := change.before
  afterState := change.after

/-- The logger takes every such event. -/
theorem event_accepted (change : AccountChange) (actor : Principal) (now : Instant) :
    (change.event actor now).Accepted where
  actor := .inr rfl
  aware := rfl
  affected := by
    cases change <;> exact PyValue.accepted_dict (by simp)
  before := by
    cases change with
    | deactivated userId username keysRevoked => exact PyValue.accepted_dict (by simp)
    | _ => exact PyValue.accepted_none
  after := by
    cases change <;> exact PyValue.accepted_dict (by simp)

end AccountChange

/-! ## Requests -/

/-- The characters of a username, and those of a label. -/
def isUsernameChar (c : Char) : Bool :=
  c.isAlphanum || c = '.' || c = '_' || c = '@' || c = '-'

def isLabelChar (c : Char) : Bool := c.isAlphanum || c = '.' || c = '_' || c = '-'

/-- A body that was validated, blanks around its texts stripped. -/
structure CreateUserRequest where
  username : String
  email : Option String
  role : Role
  lengths : 2 ≤ username.length ∧ username.length ≤ 100 ∧ ∀ text ∈ email, text.length ≤ 200
  characters : username.toList.all isUsernameChar = true

structure IssueKeyRequest where
  label : String
  lengths : 1 ≤ label.length ∧ label.length ≤ 40
  characters : label.toList.all isLabelChar = true

/-- The name of a key that is issued to a user. -/
def issuedName (username label : String) : String := username ++ ":" ++ label

/-- The longest name of a key that the column takes. -/
def keyNameLimit : Nat := 100

/-- The longest name of an actor that the column takes. -/
def actorIdLimit : Nat := 100

/-- `_audit_user`, for an event that the logger takes: under the lock of the chain. The name of the
actor is that of the key behind its prefix, and may be too long for the column. -/
def auditUser (principal : Principal) (change : AccountChange) (now : Instant) : AccessProg Unit := do
  lockRow AccessLock.chain
  require ((apiActor principal).length ≤ actorIdLimit) ⟨500, "internal server error"⟩
  put (AccessWrite.record (change.event principal now))

/-- The insertion of a user, under the identifier and the username. -/
def insertUser (body : CreateUserRequest) (now : Instant) : AccessProg User := do
  let id ← newId
  lockRow (AccessLock.user id)
  lockRow (AccessLock.username body.username)
  let d ← view
  require (d.users.all fun user => user.id ≠ id ∧ user.username ≠ body.username)
    ⟨409, "that username already exists"⟩
  let user : User :=
    { id, username := body.username, email := body.email, role := body.role, createdAt := now }
  put (AccessWrite.insertUser user)
  return user

/-- The insertion of a key, under the identifier, the digest and the name. A name that the column
does not take fails in another way than one in use. -/
def insertKey (keyHash name : String) (role : Role) (userId : Option Id) (inUse : HttpError) :
    AccessProg ApiKey := do
  let id ← newId
  require (name.length ≤ keyNameLimit) ⟨500, "internal server error"⟩
  lockRow (AccessLock.key id)
  lockRow (AccessLock.keyHash keyHash)
  lockRow (AccessLock.keyName name)
  let d ← view
  require
    (d.apiKeys.all fun key => key.id ≠ id ∧ key.keyHash ≠ keyHash ∧ key.name ≠ name) inUse
  let key : ApiKey := { id, keyHash, name, role, userId }
  put (AccessWrite.insertKey key)
  return key

namespace Access

variable (access : Access)

/-- `create_user`. -/
def createUser (rawKey : Option String) (body : CreateUserRequest) (now : Instant) :
    AccessProg User := do
  let principal ← access.requireRole .admin rawKey
  let user ← insertUser body now
  auditUser principal (.created user.id user.username user.role) now
  commitNow
  return user

/-- `issue_api_key`, where `newKey` is what `generate_api_key` gave. -/
def issueApiKey (rawKey : Option String) (userId : Id) (body : IssueKeyRequest) (newKey : String)
    (now : Instant) : AccessProg ApiKey := do
  let principal ← access.requireRole .admin rawKey
  let d ← view
  match d.users.find? (·.id = userId) with
  | none => .fail ⟨404, "user not found"⟩
  | some user =>
    require user.isActive ⟨409, "the user is deactivated"⟩
    let key ← insertKey (access.hashApiKey newKey) (issuedName user.username body.label) user.role
      (some user.id) ⟨409, "that key label is already in use"⟩
    auditUser principal (.issued user.id key.id key.name key.role) now
    commitNow
    return key

/-- `deactivate_user`. -/
def deactivateUser (rawKey : Option String) (userId : Id) (now : Instant) : AccessProg Unit := do
  let principal ← access.requireRole .admin rawKey
  lockRow (AccessLock.user userId)
  let d ← view
  match d.users.find? (·.id = userId) with
  | none => .fail ⟨404, "user not found"⟩
  | some user =>
    put (AccessWrite.deactivate user.id)
    let d ← view
    let revoked := d.apiKeys.filter fun key => key.userId = some user.id ∧ key.revokedAt = none
    put (AccessWrite.revoke (revoked.map (·.id)) now)
    auditUser principal (.deactivated user.id user.username revoked.length) now
    commitNow

/-- The command that makes a key without a user. -/
def createApiKey (name : String) (role : Role) (newKey : String) : AccessProg ApiKey := do
  let key ← insertKey (access.hashApiKey newKey) name role none
    ⟨409, "a key of that name already exists"⟩
  commitNow
  return key

end Access

/-- What clients ask for. -/
inductive AccessRequest where
  | createUser (rawKey : Option String) (body : CreateUserRequest) (now : Instant)
  | issueApiKey (rawKey : Option String) (userId : Id) (body : IssueKeyRequest) (newKey : String)
      (now : Instant)
  | deactivateUser (rawKey : Option String) (userId : Id) (now : Instant)
  | createApiKey (name : String) (role : Role) (newKey : String)

namespace AccessRequest

def program (access : Access) : AccessRequest → AccessProg Unit
  | .createUser rawKey body now => (access.createUser rawKey body now).bind fun _ => .pure ()
  | .issueApiKey rawKey userId body newKey now =>
    (access.issueApiKey rawKey userId body newKey now).bind fun _ => .pure ()
  | .deactivateUser rawKey userId now => access.deactivateUser rawKey userId now
  | .createApiKey name role newKey =>
    (access.createApiKey name role newKey).bind fun _ => .pure ()

/-- The key that a request to the API shows; the command shows none and needs none. -/
def shownKey : AccessRequest → Option (Option String)
  | .createUser rawKey _ _ => some rawKey
  | .issueApiKey rawKey _ _ _ _ => some rawKey
  | .deactivateUser rawKey _ _ => some rawKey
  | .createApiKey _ _ _ => none

end AccessRequest

end Recon
