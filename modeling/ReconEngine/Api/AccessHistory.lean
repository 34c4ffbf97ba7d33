import ReconEngine.Api.Access
import Mathlib.Logic.Relation

/-!
# What can become of users and keys

The requests as steps that happen at once: a user is created, a key is issued or made, a user is
deactivated. The steps say no more about a deactivation than what holds when others issue keys in
the meantime: that some keys of the user are revoked.

**The law of histories** (`History.lockedOut`): a key that authenticates no one never does again,
and no key of a deactivated user does, not even one that was issued too late to be revoked. Tables
stay sound (`History.sound`): names and digests are unique, a key has the role of its user and is
named after them, and every user, issued key and deactivation has its entry, made by an
administrator.

**What it does not establish.** That a deactivation revokes every key at once: it revokes those it
has found, and a key that is issued meanwhile stays unrevoked and is refused because of its user.
-/

set_option autoImplicit false

namespace Recon

open Store

/-! ## Rows that move forward -/

/-- A user later on; what was deactivated stays so. -/
structure User.Continues (user later : User) : Prop where
  id : later.id = user.id
  username : later.username = user.username
  role : later.role = user.role
  inactive : user.isActive = false → later.isActive = false

/-- A key later on; what was revoked stays so. -/
structure ApiKey.Continues (key later : ApiKey) : Prop where
  id : later.id = key.id
  keyHash : later.keyHash = key.keyHash
  name : later.name = key.name
  role : later.role = key.role
  userId : later.userId = key.userId
  revoked : ∀ instant, key.revokedAt = some instant → later.revokedAt = some instant

namespace AccessDb

structure Precedes (d d' : AccessDb) : Prop where
  users : ∀ user ∈ d.users, ∃ later ∈ d'.users, user.Continues later
  apiKeys : ∀ key ∈ d.apiKeys, ∃ later ∈ d'.apiKeys, key.Continues later
  events : d.events <+: d'.events

theorem Precedes.refl (d : AccessDb) : d.Precedes d where
  users user h := ⟨user, h, rfl, rfl, rfl, id⟩
  apiKeys key h := ⟨key, h, rfl, rfl, rfl, rfl, rfl, fun _ => id⟩
  events := List.prefix_rfl

theorem Precedes.trans {d d' d'' : AccessDb} (h : d.Precedes d') (h' : d'.Precedes d'') :
    d.Precedes d'' where
  users user huser := by
    obtain ⟨later, hlater, hfirst⟩ := h.users user huser
    obtain ⟨last, hlast, hsecond⟩ := h'.users later hlater
    exact ⟨last, hlast, hsecond.id.trans hfirst.id, hsecond.username.trans hfirst.username,
      hsecond.role.trans hfirst.role, fun hin => hsecond.inactive (hfirst.inactive hin)⟩
  apiKeys key hkey := by
    obtain ⟨later, hlater, hfirst⟩ := h.apiKeys key hkey
    obtain ⟨last, hlast, hsecond⟩ := h'.apiKeys later hlater
    exact ⟨last, hlast, hsecond.id.trans hfirst.id, hsecond.keyHash.trans hfirst.keyHash,
      hsecond.name.trans hfirst.name, hsecond.role.trans hfirst.role,
      hsecond.userId.trans hfirst.userId,
      fun instant hin => hsecond.revoked instant (hfirst.revoked instant hin)⟩
  events := h.events.trans h'.events

/-! ## Steps -/

/-- Someone who holds a key of an administrator. -/
def Administrator (d : AccessDb) (actor : Principal) : Prop :=
  ∃ key ∈ d.apiKeys, key.principal = actor ∧ actor.role.atLeast .admin = true

/-- An administrator's key stays one, revoked or not. -/
theorem Precedes.administrator {d d' : AccessDb} (h : d.Precedes d') {actor : Principal}
    (hactor : d.Administrator actor) : d'.Administrator actor := by
  obtain ⟨key, hkey, rfl, hrole⟩ := hactor
  obtain ⟨later, hlater, hcontinues⟩ := h.apiKeys key hkey
  have hsame : later.principal = key.principal := by
    unfold ApiKey.principal
    rw [hcontinues.name, hcontinues.role]
  exact ⟨later, hlater, hsame, hrole⟩

/-- No user has the identifier or the username. -/
def NewUser (d : AccessDb) (user : User) : Prop :=
  ∀ other ∈ d.users, other.id ≠ user.id ∧ other.username ≠ user.username

/-- No key has the identifier, the digest or the name. -/
def NewKey (d : AccessDb) (key : ApiKey) : Prop :=
  ∀ other ∈ d.apiKeys,
    other.id ≠ key.id ∧ other.keyHash ≠ key.keyHash ∧ other.name ≠ key.name

/-- The user deactivated, and the keys revoked that are not. -/
def deactivated (d : AccessDb) (userId : Id) (ids : List Id) (now : Instant) (event : AuditEvent) :
    AccessDb where
  users := updateIn User.id [userId] (fun user => { user with isActive := false }) d.users
  apiKeys := updateIn ApiKey.id ids
    (fun key => { key with revokedAt := key.revokedAt.or (some now) }) d.apiKeys
  events := d.events ++ [event]

inductive Step (d : AccessDb) : AccessDb → Prop
  | created {actor : Principal} {user : User} (now : Instant) (hactor : d.Administrator actor)
      (hnew : d.NewUser user) (hactive : user.isActive = true) :
      Step d { d with
        users := d.users ++ [user]
        events := d.events ++
          [(AccountChange.created user.id user.username user.role).event actor now] }
  | issued {actor : Principal} {user : User} {key : ApiKey} (now : Instant)
      (hactor : d.Administrator actor) (huser : user ∈ d.users) (hnew : d.NewKey key)
      (howner : key.userId = some user.id) (hrole : key.role = user.role)
      (hname : ∃ label, key.name = issuedName user.username label) :
      Step d { d with
        apiKeys := d.apiKeys ++ [key]
        events := d.events ++
          [(AccountChange.issued user.id key.id key.name key.role).event actor now] }
  | made {key : ApiKey} (hnew : d.NewKey key) (howner : key.userId = none) :
      Step d { d with apiKeys := d.apiKeys ++ [key] }
  | deactivated {actor : Principal} {user : User} (ids : List Id) (now : Instant)
      (hactor : d.Administrator actor) (huser : user ∈ d.users)
      (hids : ∀ id ∈ ids, ∃ key ∈ d.apiKeys, key.id = id ∧ key.userId = some user.id) :
      Step d (d.deactivated user.id ids now
        ((AccountChange.deactivated user.id user.username ids.length).event actor now))

/-- Any number of steps. -/
abbrev History : AccessDb → AccessDb → Prop := Relation.ReflTransGen Step

/-- A deactivation moves rows forward. -/
theorem deactivated_precedes (d : AccessDb) (userId : Id) (ids : List Id) (now : Instant)
    (event : AuditEvent) : d.Precedes (d.deactivated userId ids now event) where
  users user huser := by
    refine ⟨_, mem_updateIn.mpr ⟨user, huser, rfl⟩, ?_⟩
    split
    · exact ⟨rfl, rfl, rfl, fun _ => rfl⟩
    · exact ⟨rfl, rfl, rfl, id⟩
  apiKeys key hkey := by
    refine ⟨_, mem_updateIn.mpr ⟨key, hkey, rfl⟩, ?_⟩
    split
    · exact ⟨rfl, rfl, rfl, rfl, rfl, fun instant h => by simp [h]⟩
    · exact ⟨rfl, rfl, rfl, rfl, rfl, fun _ => id⟩
  events := List.prefix_append _ _

theorem Step.precedes {d d' : AccessDb} (h : Step d d') : d.Precedes d' := by
  have hrefl := Precedes.refl d
  cases h with
  | created now hactor hnew hactive =>
    exact ⟨fun user huser => ⟨user, List.mem_append_left _ huser, rfl, rfl, rfl, id⟩,
      hrefl.apiKeys, List.prefix_append _ _⟩
  | issued now hactor huser hnew howner hrole hname =>
    exact ⟨hrefl.users, fun key hkey => ⟨key, List.mem_append_left _ hkey, rfl, rfl, rfl, rfl, rfl,
      fun _ => id⟩, List.prefix_append _ _⟩
  | made hnew howner =>
    exact ⟨hrefl.users, fun key hkey => ⟨key, List.mem_append_left _ hkey, rfl, rfl, rfl, rfl, rfl,
      fun _ => id⟩, List.prefix_rfl⟩
  | deactivated ids now hactor huser hids => exact deactivated_precedes _ _ _ _ _

theorem History.precedes {d d' : AccessDb} (h : History d d') : d.Precedes d' := by
  induction h with
  | refl => exact Precedes.refl d
  | tail _ hstep ih => exact ih.trans hstep.precedes

/-! ## Sound tables -/

/-- Names and digests are unique, keys belong to their users, and everything is recorded. -/
structure Sound (d : AccessDb) : Prop where
  userIds : (d.users.map (·.id)).Nodup
  usernames : (d.users.map (·.username)).Nodup
  keyIds : (d.apiKeys.map (·.id)).Nodup
  keyHashes : (d.apiKeys.map (·.keyHash)).Nodup
  keyNames : (d.apiKeys.map (·.name)).Nodup
  owned : ∀ key ∈ d.apiKeys, ∀ userId, key.userId = some userId → ∃ user ∈ d.users,
    user.id = userId ∧ key.role = user.role ∧ ∃ label, key.name = issuedName user.username label
  created : ∀ user ∈ d.users, ∃ actor now,
    (AccountChange.created user.id user.username user.role).event actor now ∈ d.events
  issued : ∀ key ∈ d.apiKeys, ∀ userId, key.userId = some userId → ∃ actor now,
    (AccountChange.issued userId key.id key.name key.role).event actor now ∈ d.events
  deactivated : ∀ user ∈ d.users, user.isActive = false → ∃ keysRevoked actor now,
    (AccountChange.deactivated user.id user.username keysRevoked).event actor now ∈ d.events
  actors : ∀ event ∈ d.events, ∃ actor, event.actorId = apiActor actor ∧ d.Administrator actor

/-- A column of distinct values stays one when a row with a new value comes. -/
theorem nodup_snoc {α β : Type} {column : α → β} {rows : List α} {row : α}
    (h : (rows.map column).Nodup) (hnew : ∀ other ∈ rows, column other ≠ column row) :
    ((rows ++ [row]).map column).Nodup := by
  rw [List.map_append, List.nodup_append]
  refine ⟨h, List.nodup_singleton _, ?_⟩
  intro a ha b hb
  obtain ⟨other, hother, rfl⟩ := List.mem_map.mp ha
  rw [List.mem_singleton.mp hb]
  exact hnew other hother

section

variable {d d' : AccessDb}

theorem Sound.actors_kept (hd : d.Sound) (h : d.Precedes d') {event : AuditEvent}
    (hevents : d'.events = d.events ++ [event])
    (hevent : ∃ actor, event.actorId = apiActor actor ∧ d.Administrator actor) :
    ∀ e ∈ d'.events, ∃ actor, e.actorId = apiActor actor ∧ d'.Administrator actor := by
  intro e he
  have hactor : ∃ actor, e.actorId = apiActor actor ∧ d.Administrator actor := by
    rw [hevents] at he
    rcases List.mem_append.mp he with hold | hnew
    · exact hd.actors e hold
    · rw [List.mem_singleton.mp hnew]
      exact hevent
  obtain ⟨actor, hid, hadmin⟩ := hactor
  exact ⟨actor, hid, h.administrator hadmin⟩

theorem Sound.created_step (hd : d.Sound) {actor : Principal} {user : User} (now : Instant)
    (hactor : d.Administrator actor) (hnew : d.NewUser user) (hactive : user.isActive = true)
    (hprecedes : d.Precedes d')
    (h : d' = { d with
      users := d.users ++ [user]
      events := d.events ++
        [(AccountChange.created user.id user.username user.role).event actor now] }) :
    d'.Sound where
  actors := hd.actors_kept hprecedes (by rw [h]) ⟨actor, rfl, hactor⟩
  userIds := by
    rw [h]
    exact nodup_snoc hd.userIds fun other hother => (hnew other hother).1
  usernames := by
    rw [h]
    exact nodup_snoc hd.usernames fun other hother => (hnew other hother).2
  keyIds := by rw [h]; exact hd.keyIds
  keyHashes := by rw [h]; exact hd.keyHashes
  keyNames := by rw [h]; exact hd.keyNames
  owned := by
    rw [h]
    intro key hkey userId howner
    obtain ⟨owner, hmem, hrest⟩ := hd.owned key hkey userId howner
    exact ⟨owner, List.mem_append_left _ hmem, hrest⟩
  created := by
    rw [h]
    intro other hother
    rcases List.mem_append.mp hother with hold | hlast
    · obtain ⟨actor', now', hevent⟩ := hd.created other hold
      exact ⟨actor', now', List.mem_append_left _ hevent⟩
    · rw [List.mem_singleton.mp hlast]
      exact ⟨actor, now, List.mem_append_right _ (List.mem_singleton_self _)⟩
  issued := by
    rw [h]
    intro key hkey userId howner
    obtain ⟨actor', now', hevent⟩ := hd.issued key hkey userId howner
    exact ⟨actor', now', List.mem_append_left _ hevent⟩
  deactivated := by
    rw [h]
    intro other hother hinactive
    rcases List.mem_append.mp hother with hold | hlast
    · obtain ⟨n, actor', now', hevent⟩ := hd.deactivated other hold hinactive
      exact ⟨n, actor', now', List.mem_append_left _ hevent⟩
    · rw [List.mem_singleton.mp hlast, hactive] at hinactive
      cases hinactive

/-- A new key, with the event of its issue where it belongs to a user. -/
theorem Sound.key_step (hd : d.Sound) {key : ApiKey} {events : List AuditEvent}
    (hnew : d.NewKey key) (hprecedes : d.Precedes d')
    (h : d' = { d with apiKeys := d.apiKeys ++ [key], events := d.events ++ events })
    (howner : ∀ userId, key.userId = some userId → (∃ user ∈ d.users, user.id = userId ∧
      key.role = user.role ∧ ∃ label, key.name = issuedName user.username label) ∧
      ∃ actor now, (AccountChange.issued userId key.id key.name key.role).event actor now ∈ events)
    (hactors : ∀ event ∈ events, ∃ actor, event.actorId = apiActor actor ∧ d.Administrator actor) :
    d'.Sound where
  userIds := by rw [h]; exact hd.userIds
  usernames := by rw [h]; exact hd.usernames
  keyIds := by
    rw [h]
    exact nodup_snoc hd.keyIds fun other hother => (hnew other hother).1
  keyHashes := by
    rw [h]
    exact nodup_snoc hd.keyHashes fun other hother => (hnew other hother).2.1
  keyNames := by
    rw [h]
    exact nodup_snoc hd.keyNames fun other hother => (hnew other hother).2.2
  owned := by
    rw [h]
    intro other hother userId huser
    rcases List.mem_append.mp hother with hold | hlast
    · exact hd.owned other hold userId huser
    · obtain rfl := List.mem_singleton.mp hlast
      exact (howner userId huser).1
  created := by
    rw [h]
    intro user huser
    obtain ⟨actor, now, hevent⟩ := hd.created user huser
    exact ⟨actor, now, List.mem_append_left _ hevent⟩
  issued := by
    rw [h]
    intro other hother userId huser
    rcases List.mem_append.mp hother with hold | hlast
    · obtain ⟨actor, now, hevent⟩ := hd.issued other hold userId huser
      exact ⟨actor, now, List.mem_append_left _ hevent⟩
    · obtain rfl := List.mem_singleton.mp hlast
      obtain ⟨actor, now, hevent⟩ := (howner userId huser).2
      exact ⟨actor, now, List.mem_append_right _ hevent⟩
  deactivated := by
    rw [h]
    intro user huser hinactive
    obtain ⟨n, actor, now, hevent⟩ := hd.deactivated user huser hinactive
    exact ⟨n, actor, now, List.mem_append_left _ hevent⟩
  actors := by
    intro event hevent
    have hactor : ∃ actor, event.actorId = apiActor actor ∧ d.Administrator actor := by
      rw [h] at hevent
      exact (List.mem_append.mp hevent).elim (hd.actors event) (hactors event)
    obtain ⟨actor, hid, hadmin⟩ := hactor
    exact ⟨actor, hid, hprecedes.administrator hadmin⟩

section

variable {userId : Id} {ids : List Id} {now : Instant} {event : AuditEvent}

/-- A column that a deactivation does not write. -/
theorem deactivated_users {β : Type} {column : User → β}
    (h : ∀ user : User, column { user with isActive := false } = column user) :
    (d.deactivated userId ids now event).users.map column = d.users.map column := map_updateIn h

theorem deactivated_apiKeys {β : Type} {column : ApiKey → β}
    (h : ∀ key : ApiKey, column { key with revokedAt := key.revokedAt.or (some now) } = column key) :
    (d.deactivated userId ids now event).apiKeys.map column = d.apiKeys.map column := map_updateIn h

/-- Every row was there before; a user that has become inactive is the one deactivated. -/
theorem mem_deactivated_users {user : User}
    (h : user ∈ (d.deactivated userId ids now event).users) :
    ∃ old ∈ d.users, old.Continues user ∧
      (user.isActive = false → old.isActive = false ∨ old.id = userId) := by
  obtain ⟨old, hold, rfl⟩ := mem_updateIn.mp h
  refine ⟨old, hold, ?_⟩
  by_cases hid : old.id ∈ [userId]
  · rw [if_pos hid]
    exact ⟨⟨rfl, rfl, rfl, fun _ => rfl⟩, fun _ => .inr (List.mem_singleton.mp hid)⟩
  · rw [if_neg hid]
    exact ⟨⟨rfl, rfl, rfl, id⟩, .inl⟩

/-- A key after a deactivation was there before it. -/
theorem mem_deactivated_apiKeys {key : ApiKey}
    (h : key ∈ (d.deactivated userId ids now event).apiKeys) :
    ∃ old ∈ d.apiKeys, old.Continues key := by
  obtain ⟨old, hold, rfl⟩ := mem_updateIn.mp h
  refine ⟨old, hold, ?_⟩
  split
  · exact ⟨rfl, rfl, rfl, rfl, rfl, fun instant h => by simp [h]⟩
  · exact ⟨rfl, rfl, rfl, rfl, rfl, fun _ => id⟩

end

theorem Sound.deactivated_step (hd : d.Sound) {actor : Principal} {user : User} (ids : List Id)
    (now : Instant) (hactor : d.Administrator actor) (huser : user ∈ d.users) :
    (d.deactivated user.id ids now ((AccountChange.deactivated user.id user.username
      ids.length).event actor now)).Sound where
  actors := hd.actors_kept (deactivated_precedes _ _ _ _ _) rfl ⟨actor, rfl, hactor⟩
  userIds := by
    rw [deactivated_users fun _ => rfl]
    exact hd.userIds
  usernames := by
    rw [deactivated_users fun _ => rfl]
    exact hd.usernames
  keyIds := by
    rw [deactivated_apiKeys fun _ => rfl]
    exact hd.keyIds
  keyHashes := by
    rw [deactivated_apiKeys fun _ => rfl]
    exact hd.keyHashes
  keyNames := by
    rw [deactivated_apiKeys fun _ => rfl]
    exact hd.keyNames
  owned := by
    intro key hkey userId howner
    obtain ⟨old, hold, hcontinues⟩ := mem_deactivated_apiKeys hkey
    obtain ⟨owner, hmem, hid, hrole, label, hname⟩ :=
      hd.owned old hold userId (hcontinues.userId.symm.trans howner)
    obtain ⟨later, hlater, hsame⟩ := (deactivated_precedes d _ ids now _).users owner hmem
    refine ⟨later, hlater, hsame.id.trans hid, ?_, label, ?_⟩
    · rw [hcontinues.role, hrole, hsame.role]
    · rw [hcontinues.name, hname, hsame.username]
  created := by
    intro other hother
    obtain ⟨old, hold, hcontinues, -⟩ := mem_deactivated_users hother
    obtain ⟨actor', now', hevent⟩ := hd.created old hold
    rw [hcontinues.id, hcontinues.username, hcontinues.role]
    exact ⟨actor', now', List.mem_append_left _ hevent⟩
  issued := by
    intro key hkey userId howner
    obtain ⟨old, hold, hcontinues⟩ := mem_deactivated_apiKeys hkey
    obtain ⟨actor', now', hevent⟩ :=
      hd.issued old hold userId (hcontinues.userId.symm.trans howner)
    rw [hcontinues.id, hcontinues.name, hcontinues.role]
    exact ⟨actor', now', List.mem_append_left _ hevent⟩
  deactivated := by
    intro other hother hinactive
    obtain ⟨old, hold, hcontinues, hwhy⟩ := mem_deactivated_users hother
    rw [hcontinues.id, hcontinues.username]
    rcases hwhy hinactive with hbefore | hid
    · obtain ⟨n, actor', now', hevent⟩ := hd.deactivated old hold hbefore
      exact ⟨n, actor', now', List.mem_append_left _ hevent⟩
    · obtain rfl := eq_of_key_eq hd.userIds hold huser hid
      exact ⟨ids.length, actor, now, List.mem_append_right _ (List.mem_singleton_self _)⟩

/-- Every step keeps the tables sound. -/
theorem Sound.step (hd : d.Sound) (h : Step d d') : d'.Sound := by
  have hprecedes := h.precedes
  cases h with
  | created now hactor hnew hactive => exact hd.created_step now hactor hnew hactive hprecedes rfl
  | @issued actor user key now hactor huser hnew howner hrole hname =>
    apply hd.key_step hnew hprecedes rfl
    · intro userId hid
      obtain rfl : user.id = userId := Option.some.inj (howner.symm.trans hid)
      exact ⟨⟨user, huser, rfl, hrole, hname⟩, actor, now, List.mem_singleton_self _⟩
    · intro event hevent
      rw [List.mem_singleton.mp hevent]
      exact ⟨actor, rfl, hactor⟩
  | made hnew howner =>
    apply @Sound.key_step _ _ hd _ [] hnew hprecedes (by rw [List.append_nil])
    · intro userId hid
      rw [howner] at hid
      cases hid
    · exact fun _ hevent => absurd hevent List.not_mem_nil
  | deactivated ids now hactor huser hids => exact hd.deactivated_step ids now hactor huser

/-- Every history keeps the tables sound. -/
theorem History.sound (h : History d d') (hd : d.Sound) : d'.Sound := by
  induction h with
  | refl => exact hd
  | tail _ hstep ih => exact ih.step hstep

/-! ## Locked out -/

/-- What it takes for a key to authenticate. -/
theorem Sound.principal_iff (hd : d.Sound) {key : ApiKey} (hkey : key ∈ d.apiKeys) (p : Principal) :
    d.principal key.keyHash = some p ↔
      key.revokedAt = none ∧ d.ownerActive key = true ∧ key.principal = p := by
  -- Only one row has the digest.
  have hfound : ∀ found, (d.apiKeys.find? fun other =>
      other.keyHash = key.keyHash ∧ other.revokedAt = none ∧ d.ownerActive other = true) =
        some found → found = key ∧ found.revokedAt = none ∧ d.ownerActive found = true := by
    intro found hfind
    have hholds := List.find?_some hfind
    rw [decide_eq_true_eq] at hholds
    exact ⟨List.inj_on_of_nodup_map hd.keyHashes (List.mem_of_find?_eq_some hfind) hkey hholds.1,
      hholds.2⟩
  unfold principal
  rw [Option.map_eq_some_iff]
  constructor
  · intro h
    obtain ⟨found, hfind, hp⟩ := h
    obtain ⟨rfl, hrevoked, hactive⟩ := hfound found hfind
    exact ⟨hrevoked, hactive, hp⟩
  · intro h
    obtain ⟨hrevoked, hactive, hp⟩ := h
    have hsome : (d.apiKeys.find? fun other => other.keyHash = key.keyHash ∧
        other.revokedAt = none ∧ d.ownerActive other = true).isSome = true :=
      List.find?_isSome.mpr ⟨key, hkey, decide_eq_true ⟨rfl, hrevoked, hactive⟩⟩
    obtain ⟨found, hfind⟩ := Option.isSome_iff_exists.mp hsome
    exact ⟨found, hfind, (hfound found hfind).1 ▸ hp⟩

/-- An owner that is active is one that no row shows inactive. -/
theorem Sound.ownerActive_iff (hd : d.Sound) {key : ApiKey} {user : User} (huser : user ∈ d.users)
    (howner : key.userId = some user.id) : d.ownerActive key = true ↔ user.isActive = true := by
  unfold ownerActive
  rw [howner]
  dsimp only
  rw [List.any_eq_true]
  constructor
  · intro h
    obtain ⟨other, hother, hholds⟩ := h
    obtain ⟨hid, hactive⟩ := of_decide_eq_true hholds
    rw [← eq_of_key_eq hd.userIds hother huser hid]
    exact hactive
  · exact fun h => ⟨user, huser, decide_eq_true ⟨rfl, h⟩⟩

/-- **The law of histories.** What a key authenticates later it authenticated before; and once a
user is inactive, no key of theirs authenticates anyone. -/
theorem History.lockedOut (h : History d d') (hd : d.Sound) :
    (∀ key ∈ d.apiKeys, ∀ p, d'.principal key.keyHash = some p →
      d.principal key.keyHash = some p) ∧
    ∀ user ∈ d.users, user.isActive = false → ∀ key ∈ d'.apiKeys, key.userId = some user.id →
      d'.principal key.keyHash = none := by
  have hd' := h.sound hd
  have hprecedes := h.precedes
  constructor
  · intro key hkey p hp
    obtain ⟨later, hlater, hcontinues⟩ := hprecedes.apiKeys key hkey
    rw [← hcontinues.keyHash] at hp
    obtain ⟨hrevoked, hactive, hsame⟩ := (hd'.principal_iff hlater p).mp hp
    refine (hd.principal_iff hkey p).mpr ⟨?_, ?_, ?_⟩
    · cases hbefore : key.revokedAt with
      | none => rfl
      | some instant =>
        rw [hcontinues.revoked instant hbefore] at hrevoked
        cases hrevoked
    · cases howner : key.userId with
      | none =>
        unfold ownerActive
        rw [howner]
      | some userId =>
        obtain ⟨user, huser, rfl, -⟩ := hd.owned key hkey userId howner
        obtain ⟨user', huser', hsame'⟩ := hprecedes.users user huser
        have howner' : later.userId = some user'.id := by
          rw [hcontinues.userId, howner, hsame'.id]
        have hactive' := (hd'.ownerActive_iff huser' howner').mp hactive
        apply (hd.ownerActive_iff huser howner).mpr
        by_contra hnot
        rw [hsame'.inactive (Bool.eq_false_iff.mpr hnot)] at hactive'
        cases hactive'
    · rw [← hsame]
      unfold ApiKey.principal
      rw [hcontinues.name, hcontinues.role]
  · intro user huser hinactive key hkey howner
    obtain ⟨user', huser', hsame⟩ := hprecedes.users user huser
    have hgone : user'.isActive = false := hsame.inactive hinactive
    rw [← hsame.id] at howner
    cases hp : d'.principal key.keyHash with
    | none => rfl
    | some p =>
      have hactive := (hd'.ownerActive_iff huser' howner).mp ((hd'.principal_iff hkey p).mp hp).2.1
      rw [hgone] at hactive
      cases hactive

end

end AccessDb

end Recon
