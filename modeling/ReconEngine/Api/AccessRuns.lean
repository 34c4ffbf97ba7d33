import ReconEngine.Api.AccessHistory
import ReconEngine.Store.Forward

/-!
# Requests that run together

Any number of requests run at the same time, statement by statement, and any of them may be lost.
**What they leave is what some history of steps leaves** (`runs_linearise`): each request that
commits is one step, by someone who held a key of an administrator. So the laws of histories hold of
every run (`runs_lockOut`), and where no key shown is one of an administrator's nothing changes at
all (`runs_escalate_none`).

**What it does not establish.** In which order requests that overlap take effect: the history
exists, and the store does not say which of two it is. A request that is lost is no step.
-/

set_option autoImplicit false

namespace Recon

open Store
open Store.Prog hiding pure bind

open AccessDb (Administrator Precedes Step History)

/-! ## The protocol -/

/-- What the locks protect: a user's row, which values are in use, and the chain. -/
def AccessLock.agree : AccessLock → AccessDb → AccessDb → Prop
  | .user id, d, d' => d.users.find? (·.id = id) = d'.users.find? (·.id = id)
  | .username value, d, d' =>
    (∃ user ∈ d.users, user.username = value) ↔ ∃ user ∈ d'.users, user.username = value
  | .key id, d, d' => (∃ key ∈ d.apiKeys, key.id = id) ↔ ∃ key ∈ d'.apiKeys, key.id = id
  | .keyHash value, d, d' =>
    (∃ key ∈ d.apiKeys, key.keyHash = value) ↔ ∃ key ∈ d'.apiKeys, key.keyHash = value
  | .keyName value, d, d' =>
    (∃ key ∈ d.apiKeys, key.name = value) ↔ ∃ key ∈ d'.apiKeys, key.name = value
  | .chain, d, d' => d.events = d'.events

/-- Every commit is a history of steps. -/
def accounts : Protocol accessSchema where
  agree := AccessLock.agree
  same _ d d' := AccessDb.Precedes d d'
  inv _ _ := True
  writes _ _ := True
  moves d d' := History d d'
  agree_refl l d := by cases l <;> rfl
  agree_trans l d d' d'' h h' := by
    cases l with
    | user id => exact Eq.trans h h'
    | chain => exact Eq.trans h h'
    | username value => exact Iff.trans h h'
    | key id => exact Iff.trans h h'
    | keyHash value => exact Iff.trans h h'
    | keyName value => exact Iff.trans h h'
  same_refl _ d := AccessDb.Precedes.refl d
  same_trans _ _ _ _ h h' := AccessDb.Precedes.trans h h'
  inv_mono _ _ _ _ h := h

theorem accounts_forward : accounts.Forward where
  refl _ := .refl
  trans _ _ _ h h' := h.trans h'
  keeps _ _ h _ := AccessDb.History.precedes h

/-- A request whose key is that of an administrator, and that relies on rows moving forward. -/
structure Acting (actor : Principal) (k : Local accessSchema) : Prop where
  marked : AccessMark.forward ∈ k.marks
  administrator : AccessDb.Administrator k.db actor

theorem Acting.later {actor : Principal} {k : Local accessSchema} (h : Acting actor k) {n m : Nat}
    {d : AccessDb} (hl : accounts.Later k n d) (held : List AccessLock) (log : List AccessWrite) :
    Acting actor ⟨held, k.marks, log, m, d⟩ where
  marked := h.marked
  administrator := (hl.same _ h.marked).administrator h.administrator

section

variable {access : Access} {k : Local accessSchema}

/-- Who is let through has a key of the role, or of a higher one. -/
theorem requireRole_follows (rawKey : Option String) (hlog : k.log = []) :
    accounts.Follows (access.requireRole .admin rawKey)
      (fun actor k' => Acting actor k' ∧ k'.log = [] ∧ k'.held = k.held) (fun _ _ => True) k := by
  unfold Access.requireRole Access.authenticate
  cases rawKey.filter (· ≠ "") with
  | none => trivial
  | some raw =>
    apply Protocol.Follows.bind
    apply Protocol.Follows.bind
    intro n d hl
    rw [hlog]
    dsimp only [Protocol.Follows]
    cases hp : AccessDb.principal (accessSchema.replay [] d) (access.hashApiKey raw) with
    | none => trivial
    | some principal =>
      apply Protocol.Follows.bind
      apply Protocol.Follows.require
      · intro hrole
        obtain ⟨key, hfind, hkey⟩ := Option.map_eq_some_iff.mp hp
        exact ⟨⟨List.mem_cons_self, key, List.mem_of_find?_eq_some hfind, hkey, hkey ▸ hrole⟩,
          rfl, rfl⟩
      · intro _
        trivial

/-! ## Commits -/

/-- The last statements of a request that is recorded: the entry, under the lock of the chain, and
the commit. -/
theorem audited_commit {α : Type} {actor : Principal} {change : AccountChange} {now : Instant}
    {a : α} (h : ∀ n d, accounts.Later k n d →
      (∀ l : AccessLock, l ∉ AccessLock.chain :: k.held →
        l.agree d (accessSchema.replay (k.log ++ [.record (change.event actor now)]) d)) ∧
      History d (accessSchema.replay (k.log ++ [.record (change.event actor now)]) d)) :
    accounts.Follows ((auditUser actor change now).bind fun _ => commitNow.bind fun _ => .pure a)
      (fun _ _ => True) (fun _ _ => True) k := by
  intro n d hl
  apply Protocol.Follows.bind
  apply Protocol.Follows.bind
  refine Protocol.Follows.bind (Protocol.Follows.require (fun _ => ?_) fun _ => trivial)
  constructor
  · exact fun _ _ _ => trivial
  · intro n' d' hl'
    have hlater : accounts.Later k n' d' :=
      hl.step hl'.supply trivial (fun l hmem => hl'.agree l (List.mem_cons_of_mem _ hmem)) hl'.same
    obtain ⟨hagree, hmoves⟩ := h n' d' hlater
    exact ⟨hagree, trivial, hmoves, trivial⟩

/-! ## A new user -/

/-- A user is new when neither the identifier nor the name is taken. -/
theorem newUser_iff {d : AccessDb} {user : User} :
    d.NewUser user ↔ d.users.find? (·.id = user.id) = none ∧
      ¬ ∃ other ∈ d.users, other.username = user.username := by
  unfold AccessDb.NewUser
  rw [List.find?_eq_none]
  simp only [decide_eq_true_eq, not_exists, not_and]
  exact ⟨fun h => ⟨fun u hu => (h u hu).1, fun u hu => (h u hu).2⟩,
    fun h u hu => ⟨h.1 u hu, h.2 u hu⟩⟩

/-- A transaction that has inserted a user, under the locks of the insertion. -/
structure Inserted (actor : Principal) (user : User) (k : Local accessSchema) : Prop where
  acting : Acting actor k
  log : k.log = [.insertUser user]
  row : AccessLock.user user.id ∈ k.held
  username : AccessLock.username user.username ∈ k.held
  new : AccessDb.NewUser k.db user
  active : user.isActive = true

/-- A user is inserted under the lock of the name. -/
theorem insertUser_follows {actor : Principal} (body : CreateUserRequest) (now : Instant)
    (hk : Acting actor k) (hlog : k.log = []) :
    accounts.Follows (insertUser body now) (fun user k' => Inserted actor user k')
      (fun _ _ => True) k := by
  apply Protocol.Follows.bind (Protocol.Follows.newId fun n₁ d₁ h₁ => ?_)
  apply Protocol.Follows.bind (Protocol.Follows.lockRow fun n₂ d₂ h₂ => ?_)
  apply Protocol.Follows.bind (Protocol.Follows.lockRow fun n₃ d₃ h₃ => ?_)
  apply Protocol.Follows.bind (Protocol.Follows.view fun n₄ d₄ h₄ => ?_)
  have hlater : accounts.Later k n₄ d₄ :=
    ((h₁.through (fun _ h => h) (Nat.le_succ n₁) h₂).through
      (fun _ => List.mem_cons_of_mem _) (Nat.le_refl n₂) h₃).through
      (fun _ h => List.mem_cons_of_mem _ (List.mem_cons_of_mem _ h)) (Nat.le_refl n₃) h₄
  apply Protocol.Follows.bind
  apply Protocol.Follows.require
  · intro hfree
    have hview : accessSchema.replay k.log d₄ = d₄ := by rw [hlog]; rfl
    rw [hview] at hfree
    constructor
    · exact fun _ _ _ => trivial
    · refine ⟨hk.later hlater _ _, ?_, ?_, ?_, ?_, rfl⟩
      · show k.log ++ _ = _
        rw [hlog]
        rfl
      · exact List.mem_cons_of_mem _ List.mem_cons_self
      · exact List.mem_cons_self
      · intro other hother
        exact of_decide_eq_true (List.all_eq_true.mp hfree other hother)
  · intro _
    trivial

/-- What a transaction with a new user commits is a step. -/
theorem Inserted.commits {actor : Principal} {user : User} (h : Inserted actor user k) {n : Nat}
    {d : AccessDb} (hl : accounts.Later k n d) (now : Instant) :
    let event := (AccountChange.created user.id user.username user.role).event actor now
    (∀ l : AccessLock, l ∉ AccessLock.chain :: k.held →
        l.agree d (accessSchema.replay (k.log ++ [.record event]) d)) ∧
      History d (accessSchema.replay (k.log ++ [.record event]) d) := by
  intro event
  have hnew : d.NewUser user := by
    obtain ⟨hid, hname⟩ := newUser_iff.mp h.new
    have hrow : k.db.users.find? (·.id = user.id) = d.users.find? (·.id = user.id) :=
      hl.agree _ h.row
    have husername : (∃ other ∈ k.db.users, other.username = user.username) ↔
        ∃ other ∈ d.users, other.username = user.username := hl.agree _ h.username
    exact newUser_iff.mpr ⟨hrow.symm.trans hid, mt husername.mpr hname⟩
  rw [h.log]
  constructor
  · intro l hfree
    cases l with
    | user id =>
      have hne : user.id ≠ id := fun heq => hfree (List.mem_cons_of_mem _ (heq ▸ h.row))
      show d.users.find? (·.id = id) = (d.users ++ [user]).find? (·.id = id)
      rw [List.find?_append]
      simp [hne]
    | username value =>
      have hne : user.username ≠ value := fun heq =>
        hfree (List.mem_cons_of_mem _ (heq ▸ h.username))
      show (∃ other ∈ d.users, other.username = value) ↔
        ∃ other ∈ d.users ++ [user], other.username = value
      simp [or_and_right, exists_or, hne]
    | chain => exact absurd List.mem_cons_self hfree
    | key id => exact Iff.rfl
    | keyHash value => exact Iff.rfl
    | keyName value => exact Iff.rfl
  · exact .single (.created now ((hl.same _ h.acting.marked).administrator h.acting.administrator)
      hnew h.active)

/-- Creating a user follows the protocol and commits one step. -/
theorem createUser_follows (rawKey : Option String) (body : CreateUserRequest) (now : Instant)
    (hlog : k.log = []) :
    accounts.Follows (access.createUser rawKey body now) (fun _ _ => True) (fun _ _ => True) k := by
  apply Protocol.Follows.bind
  apply (requireRole_follows rawKey hlog).mono _ fun _ _ _ => trivial
  intro actor k₁ hacting
  apply Protocol.Follows.bind
  apply (insertUser_follows body now hacting.1 hacting.2.1).mono _ fun _ _ _ => trivial
  intro user k₂ hinserted
  exact audited_commit fun n d hl => hinserted.commits hl now

/-! ## A new key -/

/-- A key is new when neither its digest nor its name is taken. -/
theorem newKey_iff {d : AccessDb} {key : ApiKey} :
    d.NewKey key ↔ (¬ ∃ other ∈ d.apiKeys, other.id = key.id) ∧
      (¬ ∃ other ∈ d.apiKeys, other.keyHash = key.keyHash) ∧
      ¬ ∃ other ∈ d.apiKeys, other.name = key.name := by
  unfold AccessDb.NewKey
  simp only [not_exists, not_and]
  exact ⟨fun h => ⟨fun o ho => (h o ho).1, fun o ho => (h o ho).2.1, fun o ho => (h o ho).2.2⟩,
    fun h o ho => ⟨h.1 o ho, h.2.1 o ho, h.2.2 o ho⟩⟩

/-- A transaction that has inserted a key, under the locks of the insertion. -/
structure Keyed (key : ApiKey) (k : Local accessSchema) : Prop where
  log : k.log = [.insertKey key]
  row : AccessLock.key key.id ∈ k.held
  keyHash : AccessLock.keyHash key.keyHash ∈ k.held
  name : AccessLock.keyName key.name ∈ k.held
  new : AccessDb.NewKey k.db key

/-- The insertion, by a transaction that may rely on rows moving forward meanwhile. -/
theorem insertKey_follows (keyHash name : String) (role : Role) (userId : Option Id)
    (inUse : HttpError) (hlog : k.log = []) :
    accounts.Follows (insertKey keyHash name role userId inUse)
      (fun key k' => Keyed key k' ∧ (key.name = name ∧ key.role = role ∧ key.userId = userId) ∧
        k'.marks = k.marks ∧ ∃ n, accounts.Later k n k'.db) (fun _ _ => True) k := by
  apply Protocol.Follows.bind (Protocol.Follows.newId fun n₁ d₁ h₁ => ?_)
  apply Protocol.Follows.bind (Protocol.Follows.require (fun _ => ?_) fun _ => trivial)
  apply Protocol.Follows.bind (Protocol.Follows.lockRow fun n₂ d₂ h₂ => ?_)
  apply Protocol.Follows.bind (Protocol.Follows.lockRow fun n₃ d₃ h₃ => ?_)
  apply Protocol.Follows.bind (Protocol.Follows.lockRow fun n₄ d₄ h₄ => ?_)
  apply Protocol.Follows.bind (Protocol.Follows.view fun n₅ d₅ h₅ => ?_)
  have hlater : accounts.Later k n₅ d₅ :=
    (((h₁.through (fun _ h => h) (Nat.le_succ n₁) h₂).through
      (fun _ => List.mem_cons_of_mem _) (Nat.le_refl n₂) h₃).through
      (fun _ h => List.mem_cons_of_mem _ (List.mem_cons_of_mem _ h)) (Nat.le_refl n₃) h₄).through
      (fun _ h => List.mem_cons_of_mem _ (List.mem_cons_of_mem _ (List.mem_cons_of_mem _ h)))
      (Nat.le_refl n₄) h₅
  apply Protocol.Follows.bind
  apply Protocol.Follows.require
  · intro hfree
    have hview : accessSchema.replay k.log d₅ = d₅ := by rw [hlog]; rfl
    rw [hview] at hfree
    constructor
    · exact fun _ _ _ => trivial
    · refine ⟨⟨?_, ?_, ?_, ?_, ?_⟩, ⟨rfl, rfl, rfl⟩, rfl, n₅, hlater⟩
      · show k.log ++ _ = _
        rw [hlog]
        rfl
      · exact List.mem_cons_of_mem _ (List.mem_cons_of_mem _ List.mem_cons_self)
      · exact List.mem_cons_of_mem _ List.mem_cons_self
      · exact List.mem_cons_self
      · intro other hother
        exact of_decide_eq_true (List.all_eq_true.mp hfree other hother)
  · intro _
    trivial

/-- A new key is still new when it is committed, and its rows are locked. -/
theorem Keyed.commits {key : ApiKey} (h : Keyed key k) {n : Nat} {d : AccessDb}
    (hl : accounts.Later k n d) :
    d.NewKey key ∧ ∀ l : AccessLock, l ∉ k.held →
      l.agree d { d with apiKeys := d.apiKeys ++ [key] } := by
  constructor
  · obtain ⟨hid, hhash, hname⟩ := newKey_iff.mp h.new
    have hrow : (∃ other ∈ k.db.apiKeys, other.id = key.id) ↔
        ∃ other ∈ d.apiKeys, other.id = key.id := hl.agree _ h.row
    have hdigest : (∃ other ∈ k.db.apiKeys, other.keyHash = key.keyHash) ↔
        ∃ other ∈ d.apiKeys, other.keyHash = key.keyHash := hl.agree _ h.keyHash
    have hlabel : (∃ other ∈ k.db.apiKeys, other.name = key.name) ↔
        ∃ other ∈ d.apiKeys, other.name = key.name := hl.agree _ h.name
    exact newKey_iff.mpr ⟨mt hrow.mpr hid, mt hdigest.mpr hhash, mt hlabel.mpr hname⟩
  · intro l hfree
    cases l with
    | key id =>
      have hne : key.id ≠ id := fun heq => hfree (heq ▸ h.row)
      show (∃ other ∈ d.apiKeys, other.id = id) ↔ ∃ other ∈ d.apiKeys ++ [key], other.id = id
      simp [or_and_right, exists_or, hne]
    | keyHash value =>
      have hne : key.keyHash ≠ value := fun heq => hfree (heq ▸ h.keyHash)
      show (∃ other ∈ d.apiKeys, other.keyHash = value) ↔
        ∃ other ∈ d.apiKeys ++ [key], other.keyHash = value
      simp [or_and_right, exists_or, hne]
    | keyName value =>
      have hne : key.name ≠ value := fun heq => hfree (heq ▸ h.name)
      show (∃ other ∈ d.apiKeys, other.name = value) ↔
        ∃ other ∈ d.apiKeys ++ [key], other.name = value
      simp [or_and_right, exists_or, hne]
    | user id => rfl
    | username value => exact Iff.rfl
    | chain => rfl

theorem issueApiKey_follows (rawKey : Option String) (userId : Id) (body : IssueKeyRequest)
    (newKey : String) (now : Instant) (hlog : k.log = []) :
    accounts.Follows (access.issueApiKey rawKey userId body newKey now) (fun _ _ => True)
      (fun _ _ => True) k := by
  apply Protocol.Follows.bind
  apply (requireRole_follows rawKey hlog).mono _ fun _ _ _ => trivial
  intro actor k₁ hrole
  obtain ⟨hacting, hlog₁, -⟩ := hrole
  apply Protocol.Follows.bind (Protocol.Follows.view fun n₂ d₂ h₂ => ?_)
  have hview : accessSchema.replay k₁.log d₂ = d₂ := by rw [hlog₁]; rfl
  rw [hview]
  cases hfind : d₂.users.find? (·.id = userId) with
  | none => trivial
  | some user =>
    apply Protocol.Follows.bind (Protocol.Follows.require (fun _ => ?_) fun _ => trivial)
    apply Protocol.Follows.bind
    apply Protocol.Follows.mono
      (@insertKey_follows { k₁ with supply := n₂, db := d₂ } _ _ _ _ _ hlog₁) _ fun _ _ _ => trivial
    intro key k₃ hinserted
    obtain ⟨hkeyed, ⟨hname, hkeyRole, howner⟩, hmarks, n₃, h₃⟩ := hinserted
    apply audited_commit
    intro n d hl
    have hmarked : AccessMark.forward ∈ k₁.marks := hacting.marked
    have hread : AccessDb.Precedes d₂ d :=
      (h₃.same _ hmarked).trans (hl.same .forward (hmarks ▸ hmarked))
    have hbegun : AccessDb.Precedes k₁.db d := AccessDb.Precedes.trans (h₂.same _ hmarked) hread
    -- The user that was read may have been deactivated since.
    obtain ⟨later, hlater, hcontinues⟩ := hread.users user (List.mem_of_find?_eq_some hfind)
    obtain ⟨hnew, hagree⟩ := hkeyed.commits hl
    rw [hkeyed.log]
    constructor
    · intro l hfree
      have hunheld : l ∉ k₃.held := fun hmem => hfree (List.mem_cons_of_mem _ hmem)
      cases l with
      | chain => exact absurd List.mem_cons_self hfree
      | user id => exact hagree (.user id) hunheld
      | username value => exact hagree (.username value) hunheld
      | key id => exact hagree (.key id) hunheld
      | keyHash value => exact hagree (.keyHash value) hunheld
      | keyName value => exact hagree (.keyName value) hunheld
    · apply Relation.ReflTransGen.single
      rw [← hcontinues.id] at howner
      rw [← hcontinues.role] at hkeyRole
      rw [← hcontinues.username] at hname
      rw [← hcontinues.id]
      exact .issued now (hbegun.administrator hacting.administrator) hlater hnew howner hkeyRole
        ⟨body.label, hname⟩

theorem createApiKey_follows (name : String) (role : Role) (newKey : String) (hlog : k.log = []) :
    accounts.Follows (access.createApiKey name role newKey) (fun _ _ => True) (fun _ _ => True)
      k := by
  apply Protocol.Follows.bind
  apply (insertKey_follows _ _ _ _ _ hlog).mono _ fun _ _ _ => trivial
  intro key k₁ hinserted
  obtain ⟨hkeyed, ⟨-, -, howner⟩, -, -⟩ := hinserted
  intro n d hl
  obtain ⟨hnew, hagree⟩ := hkeyed.commits hl
  rw [hkeyed.log]
  exact ⟨fun l hfree => hagree l hfree, trivial, .single (.made hnew howner), trivial⟩

/-! ## A deactivation -/

/-- A deactivation changes the row of the user and the chain, and no unique value. -/
theorem deactivated_agree {d : AccessDb} {userId : Id} {ids : List Id} {now : Instant}
    {event : AuditEvent} {l : AccessLock} (huser : l ≠ .user userId) (hchain : l ≠ .chain) :
    l.agree d (d.deactivated userId ids now event) := by
  have hcolumn : ∀ {α β : Type} {rows rows' : List α} {column : α → β} {value : β},
      rows'.map column = rows.map column →
      ((∃ row ∈ rows, column row = value) ↔ ∃ row ∈ rows', column row = value) := by
    intro α β rows rows' column value h
    rw [← List.mem_map, ← List.mem_map, h]
  cases l with
  | user id =>
    have hother : ∀ user ∈ d.users.find? (·.id = id), user.id ∉ [userId] := by
      intro user hfind hmem
      have hid := List.find?_some hfind
      rw [decide_eq_true_eq] at hid
      exact huser (by rw [← hid, List.mem_singleton.mp hmem])
    have hupdated := @find_updateIn _ User.id (fun user => { user with isActive := false })
      (fun _ => rfl) [userId] d.users id
    refine Eq.trans ?_ hupdated.symm
    cases hfind : d.users.find? (·.id = id) with
    | none => rfl
    | some user => rw [Option.map_some, if_neg (hother user hfind)]
  | username value => exact hcolumn (AccessDb.deactivated_users fun _ => rfl)
  | key id => exact hcolumn (AccessDb.deactivated_apiKeys fun _ => rfl)
  | keyHash value => exact hcolumn (AccessDb.deactivated_apiKeys fun _ => rfl)
  | keyName value => exact hcolumn (AccessDb.deactivated_apiKeys fun _ => rfl)
  | chain => exact absurd rfl hchain

theorem deactivateUser_follows (rawKey : Option String) (userId : Id) (now : Instant)
    (hlog : k.log = []) :
    accounts.Follows (access.deactivateUser rawKey userId now) (fun _ _ => True) (fun _ _ => True)
      k := by
  apply Protocol.Follows.bind
  apply (requireRole_follows rawKey hlog).mono _ fun _ _ _ => trivial
  intro actor k₁ hrole
  obtain ⟨hacting, hlog₁, -⟩ := hrole
  apply Protocol.Follows.bind (Protocol.Follows.lockRow fun n₂ d₂ h₂ => ?_)
  apply Protocol.Follows.bind (Protocol.Follows.view fun n₃ d₃ h₃ => ?_)
  have hview : accessSchema.replay k₁.log d₃ = d₃ := by rw [hlog₁]; rfl
  rw [hview]
  cases hfind : d₃.users.find? (·.id = userId) with
  | none => trivial
  | some user =>
    have hid := List.find?_some hfind
    rw [decide_eq_true_eq] at hid
    subst hid
    apply Protocol.Follows.bind (Protocol.Follows.put (fun _ _ _ => trivial) ?_)
    apply Protocol.Follows.bind (Protocol.Follows.view fun n₄ d₄ h₄ => ?_)
    apply Protocol.Follows.bind (Protocol.Follows.put (fun _ _ _ => trivial) ?_)
    apply audited_commit (a := ())
    intro n d hl
    have hmarked : AccessMark.forward ∈ k₁.marks := hacting.marked
    have hrow : d₃.users.find? (·.id = user.id) = d.users.find? (·.id = user.id) :=
      (h₄.agree (.user user.id) List.mem_cons_self).trans
        (hl.agree (.user user.id) List.mem_cons_self)
    have huser : user ∈ d.users := List.mem_of_find?_eq_some (hrow.symm.trans hfind)
    have hread : AccessDb.Precedes d₄ d := hl.same .forward hmarked
    have hbegun : AccessDb.Precedes k₁.db d :=
      AccessDb.Precedes.trans (h₂.same _ hmarked) ((h₃.same _ hmarked).trans
        ((h₄.same _ hmarked).trans hread))
    rw [hlog₁]
    constructor
    · intro l hfree
      apply deactivated_agree
      · intro heq
        exact hfree (heq ▸ List.mem_cons_of_mem _ List.mem_cons_self)
      · intro heq
        exact hfree (heq ▸ List.mem_cons_self)
    · have hids : ∀ id ∈ (d₄.apiKeys.filter fun key => key.userId = some user.id ∧
          key.revokedAt = none).map (·.id),
          ∃ key ∈ d.apiKeys, key.id = id ∧ key.userId = some user.id := by
        intro id hid
        obtain ⟨key, hkey, rfl⟩ := List.mem_map.mp hid
        obtain ⟨hmem, howner⟩ := List.mem_filter.mp hkey
        obtain ⟨later, hlater, hcontinues⟩ := hread.apiKeys key hmem
        exact ⟨later, hlater, hcontinues.id,
          hcontinues.userId.trans (of_decide_eq_true howner).1⟩
      have hstep := AccessDb.Step.deactivated _ now
        (hbegun.administrator hacting.administrator) huser hids
      rw [List.length_map] at hstep
      exact .single hstep

/-! ## Runs -/

theorem AccessRequest.program_follows (request : AccessRequest) (hlog : k.log = []) :
    accounts.Follows (request.program access) (fun _ _ => True) (fun _ _ => True) k := by
  cases request with
  | createUser rawKey body now =>
    exact ((createUser_follows rawKey body now hlog).mono (fun _ _ _ => trivial)
      fun _ _ h => h).bind
  | issueApiKey rawKey userId body newKey now =>
    exact ((issueApiKey_follows rawKey userId body newKey now hlog).mono (fun _ _ _ => trivial)
      fun _ _ h => h).bind
  | deactivateUser rawKey userId now => exact deactivateUser_follows rawKey userId now hlog
  | createApiKey name role newKey =>
    exact ((createApiKey_follows name role newKey hlog).mono (fun _ _ _ => trivial)
      fun _ _ h => h).bind

end

/-- Requests that have not started yet. -/
def accessSystem (access : Access) (requests : List AccessRequest) (d : AccessDb) (n : Nat) :
    System accessSchema where
  db := d
  supply := n
  clients := requests.map fun request => { prog := request.program access }

section

variable {access : Access} {requests : List AccessRequest} {d : AccessDb} {n : Nat}

/-- **Requests that run together are steps one after another.** Whatever their interleaving, and
whichever of them are lost, what they have committed is what a history of steps leaves. -/
theorem runs_linearise {es : List Event} {t : System accessSchema}
    (hrun : (accessSystem access requests d n).run es = some t) :
    accounts.Ready t ∧ History d t.db := by
  have hready : accounts.Ready (accessSystem access requests d n) :=
    Protocol.Ready.unstarted trivial fun request _ _ hlog => request.program_follows hlog
  exact hready.run_forward accounts_forward es hrun

/-- **Locked out.** At every moment of every run the tables are sound; and from any moment on, a key
authenticates no one whom it did not authenticate then, and no key of a user who was inactive then
authenticates anyone, whenever it was issued. -/
theorem runs_lockOut {es es' : List Event} {t u : System accessSchema} (hd : d.Sound)
    (hrun : (accessSystem access requests d n).run es = some t) (hrun' : t.run es' = some u) :
    AccessDb.Sound t.db ∧ AccessDb.Sound u.db ∧
      (∀ key ∈ AccessDb.apiKeys t.db, ∀ p, AccessDb.principal u.db key.keyHash = some p →
        AccessDb.principal t.db key.keyHash = some p) ∧
      ∀ user ∈ AccessDb.users t.db, user.isActive = false →
        ∀ key ∈ AccessDb.apiKeys u.db, key.userId = some user.id →
          AccessDb.principal u.db key.keyHash = none := by
  obtain ⟨hready, hbefore⟩ := runs_linearise hrun
  obtain ⟨-, hafter⟩ := hready.run_forward accounts_forward es' hrun'
  have hsound : AccessDb.Sound t.db := hbefore.sound hd
  obtain ⟨hkeys, husers⟩ := AccessDb.History.lockedOut hafter hsound
  exact ⟨hsound, AccessDb.History.sound hafter hsound, hkeys, husers⟩

end

/-! An administrator creates a user and deactivates them while a key is issued to them: the key is
issued too late to be revoked, and no one can use it. -/

/-- The digests of two keys. -/
def shownDigests : Access where
  hashApiKey raw :=
    if raw = "rk_root" then "52b548383078992937a4fe7593c1fbdea0b2e1a09e6665e84e43a722157926b2"
    else if raw = "rk_asha" then "8b29f4ff8780416bd2a07357682f776480070094d3cfe5064cfb190054f62a0c"
    else ""

/-- Tables with the key of an administrator, made from the command line. -/
def rootTables : AccessDb where
  apiKeys := [⟨1, shownDigests.hashApiKey "rk_root", "root", .admin, none, none⟩]

theorem rootTables_sound : rootTables.Sound where
  userIds := List.nodup_nil
  usernames := List.nodup_nil
  keyIds := List.nodup_singleton _
  keyHashes := List.nodup_singleton _
  keyNames := List.nodup_singleton _
  owned := by
    intro key hkey userId howner
    obtain rfl := List.mem_singleton.mp hkey
    cases howner
  created := fun _ h => absurd h List.not_mem_nil
  issued := by
    intro key hkey userId howner
    obtain rfl := List.mem_singleton.mp hkey
    cases howner
  deactivated := fun _ h => absurd h List.not_mem_nil
  actors := fun _ h => absurd h List.not_mem_nil

def lateKeyRequests : List AccessRequest :=
  [.createUser (some "rk_root") ⟨"asha", none, .analyst, by decide, by decide⟩ 10,
    .issueApiKey (some "rk_root") 2 ⟨"laptop", by decide, by decide⟩ "rk_asha" 20,
    .deactivateUser (some "rk_root") 2 30]

/-- The user is created; the issue of the key reads the user; the user is deactivated. -/
def lateKeyBefore : List Event :=
  List.replicate 9 (.run 0) ++ List.replicate 2 (.run 1) ++ List.replicate 9 (.run 2)

/-- The key is inserted. -/
def lateKeyAfter : List Event := List.replicate 9 (.run 1)

theorem lateKey_before :
    ((accessSystem shownDigests lateKeyRequests rootTables 2).run lateKeyBefore).isSome = true := by
  decide +kernel

theorem lateKey_after :
    ((((accessSystem shownDigests lateKeyRequests rootTables 2).run lateKeyBefore).get
      lateKey_before).run lateKeyAfter).isSome = true := by
  decide +kernel

theorem runs_lockOut_lateKey :
    let t := ((accessSystem shownDigests lateKeyRequests rootTables 2).run lateKeyBefore).get
      lateKey_before
    let u := (t.run lateKeyAfter).get lateKey_after
    (AccessDb.apiKeys u.db).any (fun key => key.userId = some 2 ∧ key.revokedAt = none) = true ∧
      ∀ key ∈ AccessDb.apiKeys u.db, key.userId = some 2 →
        AccessDb.principal u.db key.keyHash = none := by
  intro t u
  have hinactive : (AccessDb.users t.db).any (fun user => user.id = 2 ∧ user.isActive = false) =
      true := by
    decide +kernel
  obtain ⟨user, huser, hholds⟩ := List.any_eq_true.mp hinactive
  obtain ⟨hid, hgone⟩ := of_decide_eq_true hholds
  have hlaw := runs_lockOut rootTables_sound (Option.some_get lateKey_before).symm
    (Option.some_get lateKey_after).symm
  constructor
  · decide +kernel
  · intro key hkey howner
    exact hlaw.2.2.2 user huser hgone key hkey (hid ▸ howner)

/-! ## No one but an administrator -/

/-- Nothing is written and nothing changes. -/
def frozen (start : AccessDb) : Protocol accessSchema where
  agree _ _ _ := True
  same _ _ _ := True
  inv _ d := d = start
  writes _ _ := False
  moves _ _ := True
  agree_refl _ _ := trivial
  agree_trans _ _ _ _ _ _ := trivial
  same_refl _ _ := trivial
  same_trans _ _ _ _ _ _ := trivial
  inv_mono _ _ _ _ h := h

/-- The request shows a key, if any, that is not one of an administrator's. -/
def AccessRequest.Unprivileged (access : Access) (d : AccessDb) (request : AccessRequest) : Prop :=
  ∃ rawKey, request.shownKey = some rawKey ∧ ∀ raw ∈ rawKey, ∀ p,
    d.principal (access.hashApiKey raw) = some p → p.role.atLeast .admin = false

section

variable {access : Access} {d : AccessDb} {k : Local accessSchema}

/-- No one is let through without such a key. -/
theorem requireRole_frozen {rawKey : Option String} (hlog : k.log = [])
    (h : ∀ raw ∈ rawKey, ∀ p, d.principal (access.hashApiKey raw) = some p →
      p.role.atLeast .admin = false) :
    (frozen d).Follows (access.requireRole .admin rawKey) (fun _ _ => False) (fun _ _ => True)
      k := by
  unfold Access.requireRole Access.authenticate
  cases hraw : rawKey.filter (· ≠ "") with
  | none => trivial
  | some raw =>
    apply Protocol.Follows.bind
    apply Protocol.Follows.bind
    intro n d' hl
    obtain rfl : d' = d := hl.inv
    rw [hlog]
    dsimp only [Protocol.Follows]
    cases hp : AccessDb.principal (accessSchema.replay [] d') (access.hashApiKey raw) with
    | none => trivial
    | some principal =>
      have hrole := h raw (Option.filter_eq_some_iff.mp hraw).1 principal hp
      apply Protocol.Follows.bind
      apply Protocol.Follows.require
      · intro hallowed
        rw [hrole] at hallowed
        cases hallowed
      · intro _
        trivial

/-- Without an administrator's key a request commits nothing. -/
theorem AccessRequest.Unprivileged.program_follows {request : AccessRequest}
    (h : request.Unprivileged access d) (hlog : k.log = []) :
    (frozen d).Follows (request.program access) (fun _ _ => True) (fun _ _ => True) k := by
  obtain ⟨rawKey, hshown, hkey⟩ := h
  have hrefused := requireRole_frozen hlog hkey
  cases request with
  | createUser raw body now =>
    obtain rfl : raw = rawKey := Option.some.inj hshown
    apply Protocol.Follows.bind
    apply Protocol.Follows.bind
    exact hrefused.mono (fun _ _ h => h.elim) fun _ _ h => h
  | issueApiKey raw userId body newKey now =>
    obtain rfl : raw = rawKey := Option.some.inj hshown
    apply Protocol.Follows.bind
    apply Protocol.Follows.bind
    exact hrefused.mono (fun _ _ h => h.elim) fun _ _ h => h
  | deactivateUser raw userId now =>
    obtain rfl : raw = rawKey := Option.some.inj hshown
    apply Protocol.Follows.bind
    exact hrefused.mono (fun _ _ h => h.elim) fun _ _ h => h
  | createApiKey name role newKey => cases hshown

/-- **No one but an administrator changes anything**: in a run of requests of which none shows the
key of an administrator, nothing is ever committed. -/
theorem runs_escalate_none {requests : List AccessRequest} {n : Nat} {es : List Event}
    {t : System accessSchema} (h : ∀ request ∈ requests, request.Unprivileged access d)
    (hrun : (accessSystem access requests d n).run es = some t) : t.db = d := by
  have hready : (frozen d).Ready (accessSystem access requests d n) :=
    Protocol.Ready.unstarted rfl fun request hrequest _ hlog =>
      (h request hrequest).program_follows hlog
  exact (hready.run es (System.stable_of_same (fun _ _ _ => trivial) es _) hrun).inv

end

/-- A viewer who tries to become an administrator, next to a stranger. -/
theorem runs_escalate_none_viewer :
    let d : AccessDb :=
      { apiKeys := [⟨1, shownDigests.hashApiKey "rk_asha", "asha:laptop", .viewer, none, none⟩] }
    let requests : List AccessRequest :=
      [.createUser (some "rk_asha") ⟨"asha2", none, .admin, by decide, by decide⟩ 10,
        .deactivateUser none 5 20]
    ∀ t, (accessSystem shownDigests requests d 2).run [.run 0, .run 1, .run 0] = some t →
      t.db = d := by
  intro d requests t hrun
  apply runs_escalate_none _ hrun
  intro request hrequest
  simp only [requests, List.mem_cons, List.not_mem_nil, or_false] at hrequest
  rcases hrequest with rfl | rfl
  · refine ⟨_, rfl, ?_⟩
    intro raw hraw p hp
    obtain rfl : "rk_asha" = raw := Option.some.inj hraw
    have hviewer : d.principal (shownDigests.hashApiKey "rk_asha") =
        some ⟨"asha:laptop", .viewer⟩ := by decide +kernel
    obtain rfl := Option.some.inj (hviewer.symm.trans hp)
    rfl
  · exact ⟨none, rfl, fun _ h => nomatch h⟩

end Recon
