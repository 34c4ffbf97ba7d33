import ReconEngine.Exceptions.Escalation

/-!
# Handling exceptions

What people do with an exception through the API: resolve it, assign it, override its tier, reopen
it. Each request locks the row, checks the status and the authority it needs, and writes one event
and one audit entry with the change.

Each request is described by the writes it is made of (`changeException_work` and the four that
apply it), and the life cycle reads its moves off them. The authority is checked by the program
itself: a tier that the caller may not act on refuses the request before anything is written.

**What it does not establish.** Who the caller is: actors arrive with their role, and `Api.Access`
is where a key is turned into one.
-/

set_option autoImplicit false

namespace Recon

open Store.Prog hiding pure bind

inductive Role where
  | viewer
  | analyst
  | admin
  | system
deriving DecidableEq, Repr

def Role.rank : Role → Nat
  | .viewer => 1
  | .analyst => 2
  | .admin => 3
  | .system => 4

def Role.text : Role → String
  | .viewer => "VIEWER"
  | .analyst => "ANALYST"
  | .admin => "ADMIN"
  | .system => "SYSTEM"

/-- `has_at_least`. -/
def Role.atLeast (role needed : Role) : Bool := needed.rank ≤ role.rank

structure Principal where
  name : String
  role : Role
deriving DecidableEq, Repr

inductive ResolveOutcome where
  | resolved
  | writtenOff
deriving DecidableEq, Repr

def ResolveOutcome.status : ResolveOutcome → ExceptionStatus
  | .resolved => .resolved
  | .writtenOff => .writtenOff

structure ResolveRequest where
  resolutionDetails : String
  outcome : ResolveOutcome := .resolved
deriving DecidableEq, Repr

structure AssignRequest where
  assignee : String
  note : Option String := none
deriving DecidableEq, Repr

/-- The schema accepts tiers 1 to 4. -/
structure OverrideRequest where
  tier : Nat
  reason : String
  bounds : 1 ≤ tier ∧ tier ≤ 4

structure ReopenRequest where
  reason : String
deriving DecidableEq, Repr

/-- The dependency of an endpoint on a role. -/
def requireRole (principal : Principal) (needed : Role) : Prog Unit :=
  require (principal.role.atLeast needed)
    (.http 403 ("role " ++ needed.text ++ " or higher is required"))

/-- The row of the request, locked. -/
def lockException (id : Id) : Prog ReconException := do
  lockRow (.exception id)
  let d ← tables
  match d.exceptions.find? (·.id = id) with
  | some row => return row
  | none => .fail (.http 404 "exception not found")

/-- `_role_needed`. -/
def roleNeeded (row : ReconException) (outcome : ResolveOutcome) : Role :=
  if outcome = .writtenOff ∨ 3 ≤ row.assignedTier then .admin else .analyst

def apiActor (principal : Principal) : String := "api-key:" ++ principal.name

/-- The update of the row with its event and its audit entry. -/
def changeException (logger : AuditLogger) (row : ReconException) (columns : ExceptionColumns)
    (eventType : EventType) (principal : Principal) (action : String)
    (before after : List (PyKey × PyValue)) (rationale : String) (now : Instant) : Prog Unit := do
  put (.updateException row.id columns)
  put (.insertEvent ⟨row.id, eventType, some row.assignedTier, (columns.set row).assignedTier,
    apiActor principal, now⟩)
  let _ ← logger.append (exceptionEntry row "USER" (apiActor principal) action [] before after
    rationale now)

def assigneeValue (assignee : Option String) : PyKey × PyValue :=
  (.str "assigned_to", (assignee.map .str).getD .none)

/-- `resolve_exception`. -/
def resolveException (logger : AuditLogger) (id : Id) (body : ResolveRequest)
    (principal : Principal) (now : Instant) : Prog Unit := do
  requireRole principal .analyst
  let row ← lockException id
  require row.status.isOpen (.http 409 ("exception is already " ++ row.status.text))
  require (principal.role.atLeast (roleNeeded row body.outcome))
    (.http 403 ("resolving this exception requires role " ++ (roleNeeded row body.outcome).text ++
      " or higher"))
  changeException logger row
    { status := some body.outcome.status, resolvedAt := some (some now),
      resolvedBy := some (some principal.name) }
    .resolved principal "RESOLVE" (statusAndTier row.status row.assignedTier)
    (statusAndTier body.outcome.status row.assignedTier) body.resolutionDetails now

/-- `assign_exception`. -/
def assignException (logger : AuditLogger) (id : Id) (body : AssignRequest)
    (principal : Principal) (now : Instant) : Prog Unit := do
  requireRole principal .analyst
  let row ← lockException id
  require row.status.isOpen (.http 409 ("exception is already " ++ row.status.text))
  changeException logger row { assignedTo := some (some body.assignee) } .assigned principal
    "ASSIGN" [assigneeValue row.assignedTo] [assigneeValue (some body.assignee)]
    (body.note.getD "assigned") now

/-- `override_exception`. -/
def overrideException (logger : AuditLogger) (id : Id) (body : OverrideRequest)
    (principal : Principal) (now : Instant) : Prog Unit := do
  requireRole principal .admin
  let row ← lockException id
  require row.status.isOpen (.http 409 ("exception is already " ++ row.status.text))
  let assignee := if isQueue row.assignedTo then queueForTier body.tier else row.assignedTo
  changeException logger row
    { assignedTier := some body.tier, assignedTo := some assignee }
    .overridden principal "OVERRIDE" [(.str "tier", .int row.assignedTier), assigneeValue row.assignedTo]
    [(.str "tier", .int body.tier), assigneeValue assignee] body.reason now

/-- `reopen_exception`. -/
def reopenException (logger : AuditLogger) (id : Id) (body : ReopenRequest)
    (principal : Principal) (now : Instant) : Prog Unit := do
  requireRole principal .analyst
  let row ← lockException id
  require (!row.status.isOpen) (.http 409 ("exception is " ++ row.status.text ++ ", not resolved"))
  let tier := max row.assignedTier 2
  changeException logger row
    { status := some .reopened, assignedTier := some tier, resolvedAt := some none,
      resolvedBy := some none, assignedTo := some (queueForTier tier) }
    .reopened principal "OVERRIDE" (statusAndTier row.status row.assignedTier)
    (statusAndTier .reopened tier) body.reason now

/-! ## What is written -/

/-- Looking an exception up under its lock writes nothing. -/
theorem lockException_work {W : RowWrite → Prop} (id : Id) : (lockException id).Work W := by
  refine Work.bind (work_lockRow _) fun _ => Work.bind work_tables fun d => ?_
  split
  · exact work_pure _
  · exact work_fail _

/-- A change writes the row, one event and one entry. -/
theorem changeException_work (logger : AuditLogger) (row : ReconException)
    (columns : ExceptionColumns) (eventType : EventType) (principal : Principal) (action : String)
    (before after : List (PyKey × PyValue)) (rationale : String) (now : Instant) :
    (changeException logger row columns eventType principal action before after rationale now).Work
      RowWrite.OfExceptions :=
  Work.bind (work_put.mpr trivial) fun _ => Work.bind (work_put.mpr trivial) fun _ =>
    Work.bind (append_ofExceptions _ (.inl rfl)) fun _ => work_pure _

section

variable (logger : AuditLogger) (id : Id) (principal : Principal) (now : Instant)

theorem resolveException_work (body : ResolveRequest) :
    (resolveException logger id body principal now).Work RowWrite.OfExceptions :=
  Work.bind (work_require _ _) fun _ => Work.bind (lockException_work _) fun _ =>
    Work.bind (work_require _ _) fun _ => Work.bind (work_require _ _) fun _ =>
    changeException_work _ _ _ _ _ _ _ _ _ _

theorem assignException_work (body : AssignRequest) :
    (assignException logger id body principal now).Work RowWrite.OfExceptions :=
  Work.bind (work_require _ _) fun _ => Work.bind (lockException_work _) fun _ =>
    Work.bind (work_require _ _) fun _ => changeException_work _ _ _ _ _ _ _ _ _ _

theorem overrideException_work (body : OverrideRequest) :
    (overrideException logger id body principal now).Work RowWrite.OfExceptions :=
  Work.bind (work_require _ _) fun _ => Work.bind (lockException_work _) fun _ =>
    Work.bind (work_require _ _) fun _ => changeException_work _ _ _ _ _ _ _ _ _ _

theorem reopenException_work (body : ReopenRequest) :
    (reopenException logger id body principal now).Work RowWrite.OfExceptions :=
  Work.bind (work_require _ _) fun _ => Work.bind (lockException_work _) fun _ =>
    Work.bind (work_require _ _) fun _ => changeException_work _ _ _ _ _ _ _ _ _ _

end

end Recon
