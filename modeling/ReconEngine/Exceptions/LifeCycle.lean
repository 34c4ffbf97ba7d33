import ReconEngine.Exceptions.Handling

/-!
# The life cycle of an exception

Nine operations write the status, the tier and the timestamps of an exception, each with its own
event. `Tracked` is what they keep: the events of an exception start with CREATED and lead, tier by
tier, to its current tier; `resolved_at` is set exactly when the exception is RESOLVED or
WRITTEN_OFF; tiers lie between 1 and 4. `Evolves` is what one operation may change: a tier goes down
only by an override, and a stamp of a breach stays.

**The law** (`life_cycle`): over every history of operations, whatever their order and actors, the
exceptions are `Tracked`, and any later state `Evolves` from any earlier one.

**What it does not establish.** Progress: an exception may stay open for good. Nor does the law
order the events of two exceptions relative to each other.
-/

set_option autoImplicit false

namespace Recon

open Store
open Store.Prog hiding pure bind

/-! ## Replaying the events -/

/-- The events of an exception, in order. -/
def Db.eventsOf (d : Db) (id : Id) : List ExceptionEvent :=
  d.events.filter fun v => v.exceptionId = id

/-- Each event starts at the tier where the one before it ended. -/
def Climbs : Nat → List ExceptionEvent → Nat → Prop
  | tier, [], last => tier = last
  | tier, v :: vs, last => v.fromTier = some tier ∧ Climbs v.toTier vs last

/-- The events are a CREATED event and then steps from tier to tier, up to `tier`. -/
def Replayed (vs : List ExceptionEvent) (tier : Nat) : Prop :=
  ∃ created steps, vs = created :: steps ∧ created.eventType = .created ∧
    created.fromTier = none ∧ (∀ v ∈ steps, v.eventType ≠ .created) ∧
      Climbs created.toTier steps tier

/-- The tiers of a history go on with the next event. -/
theorem Climbs.concat {first last : Nat} {steps : List ExceptionEvent} {v : ExceptionEvent}
    (h : Climbs first steps last) (hv : v.fromTier = some last) :
    Climbs first (steps ++ [v]) v.toTier := by
  induction steps generalizing first with
  | nil => exact ⟨h ▸ hv, rfl⟩
  | cons step steps ih => exact ⟨h.1, ih h.2⟩

theorem Replayed.concat {vs : List ExceptionEvent} {tier : Nat} {v : ExceptionEvent}
    (h : Replayed vs tier) (hv : v.fromTier = some tier) (hcreated : v.eventType ≠ .created) :
    Replayed (vs ++ [v]) v.toTier := by
  obtain ⟨created, steps, rfl, htype, hfrom, hsteps, hclimbs⟩ := h
  refine ⟨created, steps ++ [v], rfl, htype, hfrom, ?_, hclimbs.concat hv⟩
  intro w hw
  rcases List.mem_append.mp hw with hw | hw
  · exact hsteps w hw
  · exact List.mem_singleton.mp hw ▸ hcreated

/-! ## The invariant -/

def ExceptionStatus.isClosed (status : ExceptionStatus) : Prop :=
  status = .resolved ∨ status = .writtenOff

/-- What one row has to satisfy. -/
structure ReconException.Sound (e : ReconException) : Prop where
  tier : 1 ≤ e.assignedTier ∧ e.assignedTier ≤ 4
  resolved : e.resolvedAt.isSome = true ↔ e.status.isClosed

/-- The invariant of the exceptions and their events, every identifier being below `n`. -/
structure Tracked (n : Nat) (d : Db) : Prop where
  ids : (d.exceptions.map (·.id)).Nodup
  below : ∀ e ∈ d.exceptions, e.id < n
  sound : ∀ e ∈ d.exceptions, e.Sound
  replayed : ∀ e ∈ d.exceptions, Replayed (d.eventsOf e.id) e.assignedTier
  known : ∀ v ∈ d.events, ∃ e ∈ d.exceptions, e.id = v.exceptionId

/-- What an operation may do to the exceptions that exist: a tier goes down only where `lowers`
says so, and a stamp stays. -/
def Evolves (l : Id → Prop) (d d' : Db) : Prop :=
  ∀ e ∈ d.exceptions, ∃ e' ∈ d'.exceptions, e'.id = e.id ∧
    (e'.assignedTier < e.assignedTier → l e.id) ∧
      ∀ at', e.slaBreachedAt = some at' → e'.slaBreachedAt = some at'

theorem Evolves.refl (l : Id → Prop) (d : Db) : Evolves l d d :=
  fun e he => ⟨e, he, rfl, fun h => absurd h (lt_irrefl _), fun _ h => h⟩

/-- What happens in two operations is one evolution. -/
theorem Evolves.trans {l : Id → Prop} {d d' d'' : Db} (h : Evolves l d d')
    (h' : Evolves l d' d'') : Evolves l d d'' := by
  intro e he
  obtain ⟨e', he', hid, htier, hsla⟩ := h e he
  obtain ⟨e'', he'', hid', htier', hsla'⟩ := h' e' he'
  refine ⟨e'', he'', hid'.trans hid, fun hlt => ?_, fun t ht => hsla' t (hsla t ht)⟩
  by_cases hstep : e'.assignedTier < e.assignedTier
  · exact htier hstep
  · exact hid ▸ htier' (lt_of_lt_of_le hlt (Nat.not_lt.mp hstep))

theorem Evolves.of_same {l : Id → Prop} {d d' : Db} (h : d'.exceptions = d.exceptions) :
    Evolves l d d' :=
  fun e he => ⟨e, h ▸ he, rfl, fun hlt => absurd hlt (lt_irrefl _), fun _ ht => ht⟩

namespace Tracked

variable {n n' : Nat} {d d' : Db}

theorem of_same (h : Tracked n d) (hn : n ≤ n') (he : d'.exceptions = d.exceptions)
    (hv : d'.events = d.events) : Tracked n' d' where
  ids := he ▸ h.ids
  below := he ▸ fun e hmem => Nat.lt_of_lt_of_le (h.below e hmem) hn
  sound := he ▸ h.sound
  replayed := by
    intro e hmem
    unfold Db.eventsOf
    rw [hv]
    exact h.replayed e (he ▸ hmem)
  known := by
    intro v hmem
    rw [he]
    exact h.known v (hv ▸ hmem)

/-- Changing rows, each with its event. -/
theorem changed (h : Tracked n d) {ids : List Id} (hnodup : ids.Nodup)
    {f : ReconException → ReconException} {v : Id → ExceptionEvent} (hf : ∀ e, (f e).id = e.id)
    (he : d'.exceptions = updateIn (·.id) ids f d.exceptions)
    (hv : d'.events = d.events ++ ids.map v) (hid : ∀ i, (v i).exceptionId = i)
    (hexists : ∀ i ∈ ids, ∃ e ∈ d.exceptions, e.id = i)
    (hchange : ∀ e ∈ d.exceptions, e.id ∈ ids → (f e).Sound ∧
      (v e.id).fromTier = some e.assignedTier ∧ (v e.id).toTier = (f e).assignedTier ∧
        (v e.id).eventType ≠ .created) : Tracked n d' := by
  have hmem : ∀ e' ∈ d'.exceptions, ∃ e ∈ d.exceptions,
      (if e.id ∈ ids then f e else e) = e' := fun e' he' => mem_updateIn.mp (he ▸ he')
  have hevents : ∀ i, d'.eventsOf i = d.eventsOf i ++ if i ∈ ids then [v i] else [] := by
    intro i
    unfold Db.eventsOf
    rw [hv, List.filter_append, List.filter_map]
    congr 1
    have hsame : (fun j => decide ((v j).exceptionId = i)) = fun j => decide (j = i) := by
      funext j
      rw [hid]
    show List.map v (ids.filter fun j => decide ((v j).exceptionId = i)) = _
    rw [hsame]
    by_cases hi : i ∈ ids
    · rw [if_pos hi, List.filter_eq, hnodup.count, if_pos hi]
      rfl
    · rw [if_neg hi, List.filter_eq_nil_iff.mpr fun j hj => by
        simpa using fun heq : j = i => hi (heq ▸ hj)]
      rfl
  refine ⟨?_, ?_, ?_, ?_, ?_⟩
  · rw [he, Store.map_updateIn (g := ReconException.id) hf]
    exact h.ids
  · intro e' he'
    obtain ⟨e, hold, rfl⟩ := hmem e' he'
    have hide : (if e.id ∈ ids then f e else e).id = e.id := by split <;> simp only [hf]
    rw [hide]
    exact h.below e hold
  · intro e' he'
    obtain ⟨e, hold, rfl⟩ := hmem e' he'
    split
    · exact (hchange e hold ‹_›).1
    · exact h.sound e hold
  · intro e' he'
    obtain ⟨e, hold, rfl⟩ := hmem e' he'
    by_cases hin : e.id ∈ ids
    · obtain ⟨-, hfrom, hto, htype⟩ := hchange e hold hin
      rw [if_pos hin, hf, hevents, if_pos hin, ← hto]
      exact (h.replayed e hold).concat hfrom htype
    · rw [if_neg hin, hevents, if_neg hin, List.append_nil]
      exact h.replayed e hold
  · have hkept : ∀ e ∈ d.exceptions, ∃ e' ∈ d'.exceptions, e'.id = e.id := by
      intro e hold
      refine ⟨if e.id ∈ ids then f e else e, he ▸ mem_updateIn.mpr ⟨e, hold, rfl⟩, ?_⟩
      split <;> simp only [hf]
    intro w hw
    rw [hv] at hw
    rcases List.mem_append.mp hw with hw | hw
    · obtain ⟨e, hold, heq⟩ := h.known w hw
      obtain ⟨e', he', hid'⟩ := hkept e hold
      exact ⟨e', he', hid'.trans heq⟩
    · obtain ⟨i, hi, rfl⟩ := List.mem_map.mp hw
      obtain ⟨e, hold, rfl⟩ := hexists i hi
      obtain ⟨e', he', hid'⟩ := hkept e hold
      exact ⟨e', he', hid'.trans (hid _).symm⟩

/-- New rows, each with its CREATED event. -/
theorem created (h : Tracked n d) {rows : List ReconException} {v : ReconException → ExceptionEvent}
    (hn : n ≤ n') (hids : (rows.map (·.id)).Nodup) (hfresh : ∀ row ∈ rows, n ≤ row.id ∧ row.id < n')
    (hsound : ∀ row ∈ rows, row.Sound)
    (hv : ∀ row, (v row).exceptionId = row.id ∧ (v row).eventType = .created ∧
      (v row).fromTier = none ∧ (v row).toTier = row.assignedTier)
    (he : d'.exceptions = d.exceptions ++ rows) (hevents : d'.events = d.events ++ rows.map v) :
    Tracked n' d' := by
  have hnew : ∀ row ∈ rows, d.eventsOf row.id = [] := by
    intro row hrow
    refine List.filter_eq_nil_iff.mpr fun w hw => ?_
    obtain ⟨e, hold, heq⟩ := h.known w hw
    have hlt := h.below e hold
    have hge := (hfresh row hrow).1
    simp only [decide_eq_true_eq, ← heq]
    exact Nat.ne_of_lt (Nat.lt_of_lt_of_le hlt hge)
  have hold : ∀ e ∈ d.exceptions, (rows.map v).filter (·.exceptionId = e.id) = [] := by
    intro e hmem
    refine List.filter_eq_nil_iff.mpr fun w hw => ?_
    obtain ⟨row, hrow, rfl⟩ := List.mem_map.mp hw
    have hlt := h.below e hmem
    have hge := (hfresh row hrow).1
    simp only [decide_eq_true_eq, (hv row).1]
    exact Nat.ne_of_gt (Nat.lt_of_lt_of_le hlt hge)
  have hone : ∀ row ∈ rows, (rows.map v).filter (·.exceptionId = row.id) = [v row] := by
    intro row hrow
    rw [List.filter_map]
    have hsame : ∀ row' ∈ rows, ((v row').exceptionId = row.id ↔ row' = row) := by
      intro row' hrow'
      rw [(hv row').1]
      exact ⟨fun heq => Store.eq_of_key_eq hids hrow' hrow heq, fun heq => heq ▸ rfl⟩
    have hfilter : rows.filter (fun row' => decide ((v row').exceptionId = row.id)) =
        rows.filter (· = row) :=
      List.filter_congr fun row' hrow' => by simp only [hsame row' hrow']
    show List.map v (rows.filter fun row' => decide ((v row').exceptionId = row.id)) = _
    rw [hfilter, List.filter_eq, (List.Nodup.of_map _ hids).count, if_pos hrow]
    rfl
  refine ⟨?_, ?_, ?_, ?_, ?_⟩
  · rw [he]
    refine Store.nodup_append_of_fresh h.ids hids fun row hrow old hmem => ?_
    exact Nat.ne_of_lt (Nat.lt_of_lt_of_le (h.below old hmem) (hfresh row hrow).1)
  · intro e hmem
    rcases List.mem_append.mp (he ▸ hmem) with hmem | hmem
    · exact Nat.lt_of_lt_of_le (h.below e hmem) hn
    · exact (hfresh e hmem).2
  · intro e hmem
    rcases List.mem_append.mp (he ▸ hmem) with hmem | hmem
    · exact h.sound e hmem
    · exact hsound e hmem
  · intro e hmem
    have hsplit : d'.eventsOf e.id = d.eventsOf e.id ++ (rows.map v).filter (·.exceptionId = e.id) := by
      unfold Db.eventsOf
      rw [hevents, List.filter_append]
    rcases List.mem_append.mp (he ▸ hmem) with hmem | hmem
    · rw [hsplit, hold e hmem, List.append_nil]
      exact h.replayed e hmem
    · rw [hsplit, hnew e hmem, hone e hmem]
      obtain ⟨-, htype, hfrom, hto⟩ := hv e
      exact ⟨v e, [], rfl, htype, hfrom, fun _ hw => absurd hw List.not_mem_nil, hto⟩
  · intro w hw
    rw [he]
    rcases List.mem_append.mp (hevents ▸ hw) with hw | hw
    · obtain ⟨e, hmem, heq⟩ := h.known w hw
      exact ⟨e, List.mem_append_left _ hmem, heq⟩
    · obtain ⟨row, hrow, rfl⟩ := List.mem_map.mp hw
      exact ⟨row, List.mem_append_right _ hrow, (hv row).1.symm⟩

/-- Changing one row that exists, with its event. -/
theorem changeOne (h : Tracked n d) {e : ReconException} (he : e ∈ d.exceptions)
    {columns : ExceptionColumns} {v : ExceptionEvent} (hsound : (columns.set e).Sound)
    (hv : v.exceptionId = e.id ∧ v.eventType ≠ .created ∧ v.fromTier = some e.assignedTier ∧
      v.toTier = (columns.set e).assignedTier) :
    Tracked n (RowWrite.apply (.insertEvent v) (RowWrite.apply (.updateException e.id columns) d)) := by
  obtain ⟨hid, htype, hfrom, hto⟩ := hv
  refine h.changed (f := columns.set) (v := fun i => { v with exceptionId := i })
    (List.nodup_singleton _) (fun _ => rfl) rfl ?_ (fun _ => rfl) ?_ ?_
  · show d.events ++ [v] = d.events ++ [{ v with exceptionId := e.id }]
    rw [← hid]
  · intro i hi
    exact ⟨e, he, (List.mem_singleton.mp hi).symm⟩
  · intro e' he' hin
    obtain rfl : e' = e := Store.eq_of_key_eq h.ids he' he (List.mem_singleton.mp hin)
    exact ⟨hsound, hfrom, hto, htype⟩

end Tracked

/-- One changed row, seen by the other rows and by a reader of tiers and stamps. -/
theorem changeOne_evolves {n : Nat} {d : Db} (h : Tracked n d) {e : ReconException}
    (he : e ∈ d.exceptions) {columns : ExceptionColumns} (v : ExceptionEvent) {l : Id → Prop}
    (htier : (columns.set e).assignedTier < e.assignedTier → l e.id)
    (hsla : ∀ at', e.slaBreachedAt = some at' → (columns.set e).slaBreachedAt = some at') :
    let d' := RowWrite.apply (.insertEvent v) (RowWrite.apply (.updateException e.id columns) d)
    Evolves l d d' ∧ ∀ e' ∈ d.exceptions, e'.id ≠ e.id → e' ∈ d'.exceptions := by
  refine ⟨fun e' he' => ?_, fun e' he' hne => ?_⟩
  · by_cases hid : e'.id = e.id
    · obtain rfl : e' = e := Store.eq_of_key_eq h.ids he' he hid
      refine ⟨columns.set e', mem_updateIn.mpr ⟨e', he', ?_⟩, rfl, htier, hsla⟩
      rw [if_pos (List.mem_singleton.mpr rfl)]
    · refine ⟨e', mem_updateIn.mpr ⟨e', he', ?_⟩, rfl, fun hlt => absurd hlt (lt_irrefl _),
        fun _ ht => ht⟩
      rw [if_neg fun hin => hid (List.mem_singleton.mp hin)]
  · refine mem_updateIn.mpr ⟨e', he', ?_⟩
    rw [if_neg fun hin => hne (List.mem_singleton.mp hin)]

/-! ## What the operations write -/

section

variable {logger : AuditLogger} {l : Id → Prop} {s : Session}

/-- What an operation keeps of the state it started in. -/
def Advances (l : Id → Prop) (s s' : Session) : Prop :=
  Tracked s'.supply s'.view ∧ Evolves l s.view s'.view

/-- Work that leaves exceptions alone advances nothing. -/
theorem leavesExceptions_wp {α : Type} {p : Prog α} (hp : p.Work RowWrite.LeavesExceptions)
    (h : Tracked s.supply s.view) :
    p.wp (fun _ s' => Advances l s s' ∧ s'.view.exceptions = s.view.exceptions)
      (fun _ s' => Advances l s s' ∧ s'.view.exceptions = s.view.exceptions) s := by
  have hkeeps := Work.wp_keeps (f := fun d : Db => (d.exceptions, d.events)) exceptions_apply hp s
  have hsame : ∀ s' : Session, (s.supply ≤ s'.supply ∧
      (s'.view.exceptions, s'.view.events) = (s.view.exceptions, s.view.events)) →
      Advances l s s' ∧ s'.view.exceptions = s.view.exceptions := by
    rintro s' ⟨hsupply, heq⟩
    obtain ⟨he, hv⟩ := Prod.mk.inj heq
    exact ⟨⟨h.of_same hsupply he hv, Evolves.of_same he⟩, he⟩
  exact hkeeps.mono (fun _ s' hs => hsame s' hs) fun _ s' hs => hsame s' hs

/-- The three writes of every operation on one row: the row, the event, the audit entry. -/
theorem change_spec {e : ReconException} {columns : ExceptionColumns} {v : ExceptionEvent}
    (entry : AuditEvent) (h : Tracked s.supply s.view) (he : e ∈ s.view.exceptions)
    (hsound : (columns.set e).Sound)
    (hv : v.exceptionId = e.id ∧ v.eventType ≠ .created ∧ v.fromTier = some e.assignedTier ∧
      v.toTier = (columns.set e).assignedTier)
    (htier : (columns.set e).assignedTier < e.assignedTier → l e.id)
    (hsla : ∀ at', e.slaBreachedAt = some at' → (columns.set e).slaBreachedAt = some at') :
    ((put (RowWrite.updateException e.id columns)).bind fun _ =>
      (put (RowWrite.insertEvent v)).bind fun _ =>
        (logger.append entry).bind fun _ => Store.Prog.pure ()).wp
      (fun _ s' => Advances l s s' ∧
        ∀ e' ∈ s.view.exceptions, e'.id ≠ e.id → e' ∈ s'.view.exceptions)
      (fun _ _ => True) s := by
  rw [wp_bind, wp_put, wp_bind, wp_put, wp_bind]
  obtain ⟨hevolves, hothers⟩ := changeOne_evolves h he v htier hsla
  have hview : ((s.write (RowWrite.updateException e.id columns)).write
      (RowWrite.insertEvent v)).view = RowWrite.apply (.insertEvent v)
        (RowWrite.apply (.updateException e.id columns) s.view) := by
    rw [Session.view_write, Session.view_write]
  refine (leavesExceptions_wp (l := l) (append_leavesExceptions logger entry)
    (s := (s.write (RowWrite.updateException e.id columns)).write (RowWrite.insertEvent v))
    (hview ▸ h.changeOne he hsound hv)).mono ?_ fun _ _ _ => trivial
  rintro _ s' ⟨⟨htracked, hstep⟩, hsame⟩
  rw [hview] at hstep hsame
  refine ⟨⟨htracked, hevolves.trans hstep⟩, fun e' he' hne => ?_⟩
  rw [hsame]
  exact hothers e' he' hne

/-! ## Creation -/

/-- A new exception has its tier between 1 and 4 and is not closed. -/
theorem openException_sound (c : Candidate) (decision : RoutingDecision) (runId : Option Id)
    (now : Instant) (id : Id) :
    (ExceptionService.openException c decision runId now id).Sound := by
  refine ⟨decision.tier.value_bounds, ?_⟩
  show (none : Option Instant).isSome = true ↔ (ExceptionStatus.open).isClosed
  simp [ExceptionStatus.isClosed]

theorem openExceptions_sound {cs : List Candidate} {rows : List ReconException}
    {decision : Candidate → RoutingDecision} {runId : Option Id} {now : Instant}
    (h : List.Forall₂ (fun c row =>
      row = ExceptionService.openException c (decision c) runId now row.id) cs rows) :
    ∀ row ∈ rows, row.Sound := by
  induction h with
  | nil => exact fun _ hrow => absurd hrow List.not_mem_nil
  | cons hrow _ ih =>
    intro row hmem
    rcases List.mem_cons.mp hmem with rfl | hmem
    · rw [hrow]
      exact openException_sound _ _ _ _ _
    · exact ih row hmem

theorem persist_spec (svc : ExceptionService) (candidates : List Candidate) (runId : Option Id)
    (now : Instant) (batchCount : Nat) (h : Tracked s.supply s.view) :
    (svc.persist candidates runId now batchCount).wp (fun _ s' => Advances l s s')
      (fun _ _ => True) s := by
  refine (persist_creates svc candidates runId now batchCount s).mono ?_ fun _ _ _ => trivial
  rintro _ s' ⟨rows, hsupply, hids, hfresh, hrows, he, hv⟩
  refine ⟨h.created hsupply hids hfresh (openExceptions_sound hrows)
    (fun row => ⟨rfl, rfl, rfl, rfl⟩) he hv, fun e hold => ?_⟩
  exact ⟨e, he ▸ List.mem_append_left _ hold, rfl, fun hlt => absurd hlt (lt_irrefl _),
    fun _ ht => ht⟩

/-! ## Auto-resolution -/

theorem byAction_leavesExceptions {w : RowWrite} (h : w.ByAction) : w.LeavesExceptions := by
  cases w with
  | insertException e => exact h.elim
  | updateException id columns => exact h.elim
  | insertEvent e => exact h.elim
  | _ => trivial

/-- An OPEN exception of tier 1 ends RESOLVED in its tier, or in tier 2. -/
theorem autoOutcome_spec (now : Instant) {e : ReconException} (acted : Bool)
    (h : Tracked s.supply s.view) (he : e ∈ s.view.exceptions) (htier : e.assignedTier = 1) :
    (autoOutcome logger now e acted).wp
      (fun _ s' => Advances l s s' ∧
        ∀ e' ∈ s.view.exceptions, e'.id ≠ e.id → e' ∈ s'.view.exceptions)
      (fun _ _ => True) s := by
  have hsound := h.sound e he
  unfold autoOutcome
  rw [wp_ite]
  split
  · refine change_spec _ h he ⟨hsound.tier, ?_⟩ ⟨rfl, (fun heq => by cases heq), ?_, htier.symm⟩ ?_ fun _ ht => ht
    · show (some now).isSome = true ↔ (ExceptionStatus.resolved).isClosed
      simp [ExceptionStatus.isClosed]
    · rw [htier]
    · exact fun hlt => absurd hlt (lt_irrefl _)
  · refine change_spec _ h he ⟨⟨?_, ?_⟩, hsound.resolved⟩ ⟨rfl, (fun heq => by cases heq), ?_, rfl⟩ ?_
      fun _ ht => ht
    · show 1 ≤ 2
      decide
    · show 2 ≤ 4
      decide
    · rw [htier]
    · intro hlt
      rw [htier] at hlt
      exact absurd (show 2 < 1 from hlt) (by decide)

/-- A turn of the auto-resolver advances its exception and no other. -/
theorem autoResolveOne_spec (now : Instant) {e : ReconException} (h : Tracked s.supply s.view)
    (he : e ∈ s.view.exceptions) (htier : e.assignedTier = 1) :
    (autoResolveOne logger now e).wp
      (fun _ s' => Advances l s s' ∧
        ∀ e' ∈ s.view.exceptions, e'.id ≠ e.id → e' ∈ s'.view.exceptions)
      (fun _ _ => True) s := by
  have hwork := (act_work logger e now).weaken fun w hw => byAction_leavesExceptions hw
  have hact := wp_attemptAct
    (Q := fun _ s₁ => Advances l s s₁ ∧ s₁.view.exceptions = s.view.exceptions)
    ((leavesExceptions_wp hwork h).mono (fun _ _ h₁ => h₁) fun _ _ _ => Or.inr trivial)
    fun s₁ hsupply hback => ⟨⟨hback ▸ h.of_same hsupply rfl rfl, hback ▸ Evolves.refl l _⟩,
      congrArg Db.exceptions hback⟩
  unfold autoResolveOne
  rw [bind_eq, wp_bind]
  refine hact.mono (fun acted s₁ h₁ => ?_) fun _ _ _ => trivial
  obtain ⟨⟨htracked, hevolves⟩, hsame⟩ := h₁
  rw [bind_eq, wp_bind]
  refine (autoOutcome_spec (l := l) now acted htracked (hsame ▸ he) htier).mono
    (fun _ s₂ h₂ => ?_) fun _ _ _ => trivial
  obtain ⟨⟨htracked₂, hevolves₂⟩, hothers⟩ := h₂
  exact ⟨⟨htracked₂, hevolves.trans hevolves₂⟩, hsame ▸ hothers⟩

/-- A loop over rows that were read before it: each turn finds its row as it was read. -/
theorem eachRow_spec {one : ReconException → Prog Bool} {p : ReconException → Prop}
    (turn : ∀ e, p e → ∀ s : Session, Tracked s.supply s.view → e ∈ s.view.exceptions →
      (one e).wp (fun _ s' => Advances l s s' ∧
        ∀ e' ∈ s.view.exceptions, e'.id ≠ e.id → e' ∈ s'.view.exceptions) (fun _ _ => True) s) :
    ∀ (es : List ReconException), (es.map (·.id)).Nodup → (∀ e ∈ es, p e) → ∀ s : Session,
      Tracked s.supply s.view → (∀ e ∈ es, e ∈ s.view.exceptions) →
        (eachRow one es).wp (fun _ s' => Advances l s s') (fun _ _ => True) s
  | [], _, _, s, h, _ => ⟨h, Evolves.refl l _⟩
  | e :: es, hids, hok, s, h, hmem => by
    rw [List.map_cons, List.nodup_cons] at hids
    unfold eachRow
    rw [bind_eq, wp_bind]
    refine (turn e (hok e List.mem_cons_self) s h (hmem e List.mem_cons_self)).mono ?_
      fun _ _ _ => trivial
    rintro yes s₁ ⟨⟨htracked, hevolves⟩, hothers⟩
    rw [bind_eq, wp_bind]
    refine (eachRow_spec turn es hids.2 (fun e' he' => hok e' (List.mem_cons_of_mem e he')) s₁
      htracked ?_).mono ?_ fun _ _ _ => trivial
    · intro e' he'
      refine hothers e' (hmem e' (List.mem_cons_of_mem e he')) fun hid => hids.1 ?_
      exact hid ▸ List.mem_map_of_mem he'
    · rintro _ s₂ ⟨htracked₂, hevolves₂⟩
      exact ⟨htracked₂, hevolves.trans hevolves₂⟩

theorem autoResolverRun_spec (bankCode : String) (runId : Option Id) (now : Instant)
    (h : Tracked s.supply s.view) :
    (autoResolverRun logger bankCode runId now).wp (fun _ s' => Advances l s s')
      (fun _ _ => True) s := by
  unfold autoResolverRun
  rw [bind_eq, wp_bind, wp_tables, bind_eq, wp_bind, lockAll_wp, bind_eq, wp_bind]
  refine (eachRow_spec (p := fun e => e.assignedTier = 1) ?_ _ (picked_ids h.ids _ _) ?_ s h
    ?_).mono (fun _ _ hs => hs) fun _ _ _ => trivial
  · exact fun e htier s' h' he => autoResolveOne_spec now h' he htier
  · exact fun e he => (of_decide_eq_true (mem_picked.mp he).2).2.2.1
  · exact fun e he => (mem_picked.mp he).1

/-! ## Queues and deadlines -/

def queuedColumns (queue : String) : ExceptionColumns := { assignedTo := some (some queue) }

/-- Assigning a queue changes that column only, without an event. -/
theorem assignAll_spec (queue : String) : ∀ (ids : List Id) (s : Session),
    (assignAll queue ids).wp
      (fun _ s' => s'.supply = s.supply ∧ s'.view.events = s.view.events ∧
        s'.view.exceptions = updateIn (·.id) ids (queuedColumns queue).set s.view.exceptions)
      (fun _ _ => True) s
  | [], s => ⟨rfl, rfl, Store.updateIn_no_ids.symm⟩
  | id :: ids, s => by
    unfold assignAll
    rw [bind_eq, wp_bind, wp_lockRow, bind_eq, wp_bind, wp_put]
    refine (assignAll_spec queue ids (s.write (.updateException id (queuedColumns queue)))).mono ?_
      fun _ _ _ => trivial
    rintro _ s' ⟨hsupply, hv, he⟩
    rw [Session.view_write] at hv he
    refine ⟨hsupply, hv, he.trans ?_⟩
    exact Store.updateIn_updateIn (·.id) [id] ids (queuedColumns queue).set s.view.exceptions
      (fun _ => rfl) fun _ => rfl

/-- Queueing changes nobody's tier. -/
theorem assignQueue_spec (bankCode : String) (now : Instant) (tier : Nat) (queue : String)
    (h : Tracked s.supply s.view) :
    (assignQueue bankCode now tier queue).wp (fun _ s' => Advances l s s')
      (fun _ _ => True) s := by
  have hmem : ∀ e ∈ s.view.exceptions, e.id ∈ s.view.unassigned bankCode tier →
      e.assignedTier = tier := by
    intro e he hin
    obtain ⟨e', he', hid⟩ := List.mem_map.mp hin
    obtain ⟨hold, hp⟩ := List.mem_filter.mp he'
    obtain rfl : e' = e := Store.eq_of_key_eq h.ids hold he hid
    exact (of_decide_eq_true hp).2.2.1
  unfold assignQueue
  rw [bind_eq, wp_bind, wp_tables, bind_eq, wp_bind]
  refine (assignAll_spec queue _ s).mono ?_ fun _ _ _ => trivial
  rintro _ s₁ ⟨hsupply, hv, he⟩
  rw [bind_eq, wp_bind]
  refine (insertEvents_spec _ s₁).mono ?_ fun _ _ _ => trivial
  rintro _ s₂ ⟨hsupply₂, he₂, hv₂⟩
  have hnodup : (s.view.unassigned bankCode tier).Nodup :=
    h.ids.sublist (List.filter_sublist.map _)
  refine ⟨?_, ?_⟩
  · rw [hsupply₂, hsupply]
    refine h.changed hnodup (f := (queuedColumns queue).set) (v := queuedEvent tier now)
      (fun _ => rfl) (he₂.trans he) (hv₂.trans (congrArg (· ++ _) hv)) (fun _ => rfl) ?_ ?_
    · intro i hi
      obtain ⟨e, hin, rfl⟩ := List.mem_map.mp hi
      exact ⟨e, (List.mem_filter.mp hin).1, rfl⟩
    · intro e hold hin
      have htier := hmem e hold hin
      exact ⟨⟨(h.sound e hold).tier, (h.sound e hold).resolved⟩, by rw [htier]; rfl, htier.symm,
        fun heq => by cases heq⟩
  · intro e hold
    refine ⟨if e.id ∈ s.view.unassigned bankCode tier then (queuedColumns queue).set e else e, ?_,
      ?_, ?_, ?_⟩
    · rw [he₂, he]
      exact mem_updateIn.mpr ⟨e, hold, rfl⟩
    · split <;> rfl
    · split <;> exact fun hlt => absurd hlt (lt_irrefl _)
    · split <;> exact fun _ ht => ht

/-- Assigning queues advances the exceptions. -/
theorem assignQueues_spec (bankCode : String) (now : Instant) :
    ∀ (queues : List (Nat × String)) (s : Session), Tracked s.supply s.view →
      (assignQueues bankCode now queues).wp (fun _ s' => Advances l s s') (fun _ _ => True) s
  | [], s, h => ⟨h, Evolves.refl l _⟩
  | (tier, queue) :: rest, s, h => by
    unfold assignQueues
    rw [bind_eq, wp_bind]
    refine (assignQueue_spec (l := l) bankCode now tier queue h).mono ?_
      fun _ _ _ => trivial
    rintro _ s₁ ⟨htracked, hevolves⟩
    rw [bind_eq, wp_bind]
    refine (assignQueues_spec bankCode now rest s₁ htracked).mono ?_ fun _ _ _ => trivial
    rintro _ s₂ ⟨htracked₂, hevolves₂⟩
    exact ⟨htracked₂, hevolves.trans hevolves₂⟩

/-- A breach goes up a tier at most, and stamps a row that had no stamp. -/
theorem breachOne_spec (now : Instant) {e : ReconException} (hopen : e.status.isOpen = true)
    (hsla : e.slaBreachedAt = none) (h : Tracked s.supply s.view) (he : e ∈ s.view.exceptions) :
    (breachOne logger now e).wp
      (fun _ s' => Advances l s s' ∧
        ∀ e' ∈ s.view.exceptions, e'.id ≠ e.id → e' ∈ s'.view.exceptions)
      (fun _ _ => True) s := by
  have hsound := h.sound e he
  obtain ⟨hle, hbounds⟩ := tierAfterSlaCheck_bounds hsound.tier e.slaDeadline now
  have htier : ((breachColumns e now).set e).assignedTier =
      tierAfterSlaCheck e.assignedTier e.slaDeadline now := by
    unfold breachColumns
    dsimp only
    split
    · rename_i heq
      exact heq.symm
    · rfl
  unfold breachOne
  rw [bind_eq, wp_bind]
  refine (change_spec (l := l) (v := breachEvent e now)
    (breachEntry e now) h he ⟨?_, ?_⟩ ⟨rfl, ?_, rfl, htier.symm⟩ ?_ ?_).mono
      (fun _ _ hs => hs) fun _ _ _ => trivial
  · rw [htier]
    exact hbounds
  · have hclosed : ¬ e.status.isClosed := by
      rintro (hs | hs) <;> rw [hs] at hopen <;> cases hopen
    have hnone : e.resolvedAt.isSome = true ↔ False :=
      ⟨fun hsome => hclosed (hsound.resolved.mp hsome), False.elim⟩
    have hafter : ¬ ((breachColumns e now).set e).status.isClosed := by
      unfold breachColumns
      dsimp only
      split
      · exact hclosed
      · rintro (hs | hs) <;> cases hs
    have hresolved : ((breachColumns e now).set e).resolvedAt = e.resolvedAt := by
      unfold breachColumns
      dsimp only
      split <;> rfl
    rw [hresolved, hnone]
    exact ⟨False.elim, hafter⟩
  · unfold breachEvent
    dsimp only
    split <;> exact fun heq => by cases heq
  · intro hlt
    rw [htier] at hlt
    exact absurd hlt (Nat.not_lt.mpr hle)
  · intro at' hat
    rw [hsla] at hat
    cases hat

theorem slaScan_spec (now : Instant) (h : Tracked s.supply s.view) :
    (slaScan logger now).wp (fun _ s' => Advances l s s') (fun _ _ => True) s := by
  unfold slaScan
  rw [bind_eq, wp_bind, wp_tables, bind_eq, wp_bind, lockAll_wp, bind_eq, wp_bind]
  refine (eachRow_spec (p := fun e => e.status.isOpen = true ∧ e.slaBreachedAt = none) ?_ _
    (picked_ids h.ids _ _) ?_ s h ?_).mono (fun _ _ hs => hs) fun _ _ _ => trivial
  · exact fun e hok s' h' he => breachOne_spec now hok.1 hok.2 h' he
  · intro e he
    have hp := of_decide_eq_true (mem_picked.mp he).2
    exact ⟨hp.1, hp.2.1⟩
  · exact fun e he => (mem_picked.mp he).1

theorem escalate_spec (bankCode : String) (runId : Option Id) (now : Instant)
    (h : Tracked s.supply s.view) :
    (escalate logger bankCode runId now).wp (fun _ s' => Advances l s s')
      (fun _ _ => True) s := by
  unfold escalate
  rw [bind_eq, wp_bind]
  refine (autoResolverRun_spec (l := l) bankCode runId now h).mono ?_ fun _ _ _ => trivial
  rintro _ s₁ ⟨h₁, hevolves₁⟩
  rw [bind_eq, wp_bind]
  refine (assignQueues_spec (l := l) bankCode now queueByTier s₁ h₁).mono ?_
    fun _ _ _ => trivial
  rintro _ s₂ ⟨h₂, hevolves₂⟩
  rw [bind_eq, wp_bind]
  refine (slaScan_spec (l := l) now h₂).mono ?_ fun _ _ _ => trivial
  rintro _ s₃ ⟨h₃, hevolves₃⟩
  exact ⟨h₃, (hevolves₁.trans hevolves₂).trans hevolves₃⟩

/-! ## Handling -/

theorem requireRole_spec {Q : Unit → Session → Prop} {E : ReconError → Session → Prop}
    {principal : Principal} {needed : Role} (hQ : Q () s) (hE : ∀ e, E e s) :
    (requireRole principal needed).wp Q E s := by
  unfold requireRole
  rw [wp_require]
  split
  · exact hQ
  · exact hE _

theorem lockException_spec (id : Id) :
    (lockException id).wp (fun row s' => s' = s ∧ row ∈ s.view.exceptions ∧ row.id = id)
      (fun _ _ => True) s := by
  unfold lockException
  simp only [bind_eq, wp_bind, wp_lockRow, wp_tables]
  split
  · rename_i row hrow
    exact ⟨rfl, List.mem_of_find?_eq_some hrow, by simpa using List.find?_some hrow⟩
  · trivial

theorem changeException_spec {row : ReconException} {columns : ExceptionColumns}
    {eventType : EventType} (principal : Principal) (action : String)
    (before after : List (PyKey × PyValue)) (rationale : String) (now : Instant)
    (h : Tracked s.supply s.view) (hrow : row ∈ s.view.exceptions)
    (hsound : (columns.set row).Sound) (htype : eventType ≠ .created)
    (htier : (columns.set row).assignedTier < row.assignedTier → l row.id)
    (hsla : columns.slaBreachedAt = none) :
    (changeException logger row columns eventType principal action before after rationale now).wp
      (fun _ s' => Advances l s s') (fun _ _ => True) s := by
  unfold changeException
  refine (change_spec _ h hrow hsound ⟨rfl, htype, rfl, rfl⟩ htier ?_).mono
    (fun _ _ hs => hs.1) fun _ _ _ => trivial
  intro at' hat
  show (columns.slaBreachedAt <|> row.slaBreachedAt) = some at'
  rw [hsla]
  exact hat

/-- The status of a row that may be changed. -/
theorem isClosed_iff {status : ExceptionStatus} : status.isClosed ↔ status.isOpen = false := by
  unfold ExceptionStatus.isClosed
  cases status <;> simp [ExceptionStatus.isOpen]

theorem resolveException_spec (id : Id) (body : ResolveRequest) (principal : Principal)
    (now : Instant) (h : Tracked s.supply s.view) :
    (resolveException logger id body principal now).wp (fun _ s' => Advances l s s')
      (fun _ _ => True) s := by
  unfold resolveException
  rw [bind_eq, wp_bind]
  refine requireRole_spec ?_ fun _ => trivial
  rw [bind_eq, wp_bind]
  refine (lockException_spec id).mono ?_ fun _ _ _ => trivial
  rintro row _ ⟨rfl, hrow, rfl⟩
  simp only [bind_eq, wp_bind, wp_require]
  split
  swap
  · trivial
  split
  swap
  · trivial
  refine changeException_spec _ _ _ _ _ _ h hrow ⟨(h.sound row hrow).tier, ?_⟩
    (fun heq => by cases heq) (fun hlt => absurd hlt (lt_irrefl _)) rfl
  show (some now).isSome = true ↔ body.outcome.status.isClosed
  rw [isClosed_iff]
  cases body.outcome <;> simp [ResolveOutcome.status, ExceptionStatus.isOpen]

theorem assignException_spec (id : Id) (body : AssignRequest) (principal : Principal)
    (now : Instant) (h : Tracked s.supply s.view) :
    (assignException logger id body principal now).wp (fun _ s' => Advances l s s')
      (fun _ _ => True) s := by
  unfold assignException
  rw [bind_eq, wp_bind]
  refine requireRole_spec ?_ fun _ => trivial
  rw [bind_eq, wp_bind]
  refine (lockException_spec id).mono ?_ fun _ _ _ => trivial
  rintro row _ ⟨rfl, hrow, rfl⟩
  simp only [bind_eq, wp_bind, wp_require]
  split
  swap
  · trivial
  exact changeException_spec _ _ _ _ _ _ h hrow
    ⟨(h.sound row hrow).tier, (h.sound row hrow).resolved⟩ (fun heq => by cases heq)
    (fun hlt => absurd hlt (lt_irrefl _)) rfl

/-- An override is the one operation that may lower a tier, that of its row. -/
theorem overrideException_spec (id : Id) (body : OverrideRequest) (principal : Principal)
    (now : Instant) (h : Tracked s.supply s.view) :
    (overrideException logger id body principal now).wp (fun _ s' => Advances (· = id) s s')
      (fun _ _ => True) s := by
  unfold overrideException
  rw [bind_eq, wp_bind]
  refine requireRole_spec ?_ fun _ => trivial
  rw [bind_eq, wp_bind]
  refine (lockException_spec id).mono ?_ fun _ _ _ => trivial
  rintro row _ ⟨rfl, hrow, rfl⟩
  simp only [bind_eq, wp_bind, wp_require]
  split
  swap
  · trivial
  exact changeException_spec _ _ _ _ _ _ h hrow ⟨body.bounds, (h.sound row hrow).resolved⟩
    (fun heq => by cases heq) (fun _ => rfl) rfl

theorem reopenException_spec (id : Id) (body : ReopenRequest) (principal : Principal)
    (now : Instant) (h : Tracked s.supply s.view) :
    (reopenException logger id body principal now).wp (fun _ s' => Advances l s s')
      (fun _ _ => True) s := by
  unfold reopenException
  rw [bind_eq, wp_bind]
  refine requireRole_spec ?_ fun _ => trivial
  rw [bind_eq, wp_bind]
  refine (lockException_spec id).mono ?_ fun _ _ _ => trivial
  rintro row _ ⟨rfl, hrow, rfl⟩
  simp only [bind_eq, wp_bind, wp_require]
  split
  swap
  · trivial
  obtain ⟨hge, hle⟩ := (h.sound row hrow).tier
  refine changeException_spec _ _ _ _ _ _ h hrow ⟨?_, ?_⟩ (fun heq => by cases heq) ?_ rfl
  · show 1 ≤ max row.assignedTier 2 ∧ max row.assignedTier 2 ≤ 4
    omega
  · show (none : Option Instant).isSome = true ↔ (ExceptionStatus.reopened).isClosed
    rw [isClosed_iff]
    simp [ExceptionStatus.isOpen]
  · intro hlt
    exact absurd (show max row.assignedTier 2 < row.assignedTier from hlt)
      (Nat.not_lt.mpr (le_max_left _ _))

end

/-! ## Histories -/

inductive ExceptionOp where
  | create (candidates : List Candidate) (runId : Option Id) (now : Instant) (batchCount : Nat)
  | autoResolve (bankCode : String) (runId : Option Id) (now : Instant)
  | assignQueues (bankCode : String) (now : Instant)
  | slaScan (now : Instant)
  | process (bankCode : String) (runId : Option Id) (now : Instant)
  | resolve (id : Id) (body : ResolveRequest) (principal : Principal) (now : Instant)
  | assign (id : Id) (body : AssignRequest) (principal : Principal) (now : Instant)
  | override (id : Id) (body : OverrideRequest) (principal : Principal) (now : Instant)
  | reopen (id : Id) (body : ReopenRequest) (principal : Principal) (now : Instant)

namespace ExceptionOp

/-- The exception whose tier the operation may lower. -/
def lowers : ExceptionOp → Id → Prop
  | .override id .. => (· = id)
  | _ => fun _ => False

def program (svc : ExceptionService) : ExceptionOp → Prog Unit
  | .create candidates runId now batchCount => do
    let _ ← svc.persist candidates runId now batchCount
  | .autoResolve bankCode runId now => do
    let _ ← autoResolverRun svc.logger bankCode runId now
  | .assignQueues bankCode now => do
    let _ ← Recon.assignQueues bankCode now queueByTier
  | .slaScan now => do
    let _ ← Recon.slaScan svc.logger now
  | .process bankCode runId now => do
    let _ ← escalate svc.logger bankCode runId now
  | .resolve id body principal now => resolveException svc.logger id body principal now
  | .assign id body principal now => assignException svc.logger id body principal now
  | .override id body principal now => overrideException svc.logger id body principal now
  | .reopen id body principal now => reopenException svc.logger id body principal now

/-- Every operation advances the exceptions, and lowers the tier of those only that it overrides. -/
theorem program_spec (svc : ExceptionService) (op : ExceptionOp) {s : Session}
    (h : Tracked s.supply s.view) :
    (op.program svc).wp (fun _ s' => Advances op.lowers s s') (fun _ _ => True) s := by
  cases op with
  | create candidates runId now batchCount =>
    exact wp_bind.mpr (persist_spec svc candidates runId now batchCount h)
  | autoResolve bankCode runId now => exact wp_bind.mpr (autoResolverRun_spec bankCode runId now h)
  | assignQueues bankCode now =>
    exact wp_bind.mpr (assignQueues_spec bankCode now queueByTier s h)
  | slaScan now => exact wp_bind.mpr (slaScan_spec now h)
  | process bankCode runId now => exact wp_bind.mpr (escalate_spec bankCode runId now h)
  | resolve id body principal now => exact resolveException_spec id body principal now h
  | assign id body principal now => exact assignException_spec id body principal now h
  | override id body principal now => exact overrideException_spec id body principal now h
  | reopen id body principal now => exact reopenException_spec id body principal now h

end ExceptionOp

/-- The committed store and its supply of identifiers. -/
structure ExceptionSystem where
  db : Db
  supply : Nat

/-- What is left of the operations is in `ExceptionOp.program`; none of them commits. -/
theorem ExceptionOp.program_work (svc : ExceptionService) (op : ExceptionOp) :
    (op.program svc).Work RowWrite.OfExceptions := by
  cases op with
  | create candidates runId now batchCount =>
    exact Work.bind (svc.persist_work _ _ _ _) fun _ => work_pure _
  | autoResolve bankCode runId now => exact Work.bind (autoResolverRun_work _ _ _ _) fun _ => work_pure _
  | assignQueues bankCode now => exact Work.bind (assignQueues_work _ _ _) fun _ => work_pure _
  | slaScan now => exact Work.bind (slaScan_work _ _) fun _ => work_pure _
  | process bankCode runId now => exact Work.bind (escalate_work _ _ _ _) fun _ => work_pure _
  | resolve id body principal now => exact resolveException_work _ _ _ _ _
  | assign id body principal now => exact assignException_work _ _ _ _ _
  | override id body principal now => exact overrideException_work _ _ _ _ _
  | reopen id body principal now => exact reopenException_work _ _ _ _ _

namespace ExceptionSystem

variable (svc : ExceptionService)

/-- One request. -/
def step (s : ExceptionSystem) (op : ExceptionOp) : ExceptionSystem :=
  let s' := (request (op.program svc) { committed := s.db, log := [], supply := s.supply }).2
  { db := s'.committed, supply := s'.supply }

def run (s : ExceptionSystem) (ops : List ExceptionOp) : ExceptionSystem := ops.foldl (step svc) s

/-- No exception yet; the rest of the store is arbitrary. -/
structure Blank (s : ExceptionSystem) : Prop where
  exceptions : s.db.exceptions = []
  events : s.db.events = []

variable {svc}

/-- Without exceptions there is nothing to track. -/
theorem Blank.tracked {s : ExceptionSystem} (h : s.Blank) : Tracked s.supply s.db where
  ids := by rw [h.exceptions]; exact List.nodup_nil
  below := by rw [h.exceptions]; exact fun _ he => absurd he List.not_mem_nil
  sound := by rw [h.exceptions]; exact fun _ he => absurd he List.not_mem_nil
  replayed := by rw [h.exceptions]; exact fun _ he => absurd he List.not_mem_nil
  known := by rw [h.events]; exact fun _ hv => absurd hv List.not_mem_nil

/-- One request keeps the invariant, and changes only what it may. -/
theorem tracked_step {s : ExceptionSystem} (h : Tracked s.supply s.db) (op : ExceptionOp) :
    Tracked (s.step svc op).supply (s.step svc op).db ∧
      Evolves op.lowers s.db (s.step svc op).db := by
  have hspec := (op.program_work svc).wp_kept
    (op.program_spec svc (s := { committed := s.db, log := [], supply := s.supply }) h)
  unfold step
  rcases hspec.request with ⟨_, s', ⟨htracked, hevolves⟩, hrequest⟩ | ⟨e, s', ⟨hdb, hsupply⟩, hrequest⟩
  · rw [hrequest]
    exact ⟨htracked, hevolves⟩
  · rw [hrequest]
    have hsame : s'.close.committed = s.db := hdb
    dsimp only
    rw [hsame]
    exact ⟨h.of_same hsupply rfl rfl, Evolves.refl _ _⟩

variable (svc) in
theorem tracked_run {s : ExceptionSystem} (h : Tracked s.supply s.db) (ops : List ExceptionOp) :
    Tracked (s.run svc ops).supply (s.run svc ops).db := by
  induction ops generalizing s with
  | nil => exact h
  | cons op ops ih => exact ih (tracked_step h op).1

/-- **The life cycle.** After every sequence of operations, the events of each exception start with
CREATED and lead step by step to its tier, `resolved_at` is set exactly when the exception is
RESOLVED or WRITTEN_OFF, and the tier lies between 1 and 4. The next operation lowers no tier
unless it overrides it, and leaves every stamp of a breach. -/
theorem life_cycle (svc : ExceptionService) (s : ExceptionSystem) (hs : s.Blank)
    (ops : List ExceptionOp) :
    (∀ e ∈ (s.run svc ops).db.exceptions,
      Replayed ((s.run svc ops).db.eventsOf e.id) e.assignedTier ∧
        (e.resolvedAt.isSome = true ↔ e.status.isClosed) ∧
          1 ≤ e.assignedTier ∧ e.assignedTier ≤ 4) ∧
      ∀ op, Evolves op.lowers (s.run svc ops).db ((s.run svc ops).step svc op).db := by
  have h := tracked_run svc hs.tracked ops
  refine ⟨fun e he => ⟨h.replayed e he, (h.sound e he).resolved, (h.sound e he).tier⟩, fun op => ?_⟩
  exact (tracked_step h op).2

/-! An exception that is created, breaches its deadline, is taken over by a person, moved, resolved
and reopened. -/

def noExceptions : ExceptionSystem := { db := {}, supply := 1 }

theorem noExceptions_blank : noExceptions.Blank := ⟨rfl, rfl⟩

def missingInternal : Candidate where
  category := .missingInternal
  dedupeKey := .txn .missingInternal 7
  bankCode := "AXIS"
  affectedRecords := { normalisedTransactionIds := [7] }
  amountInrMinor := some 500

def supervisor : Principal := ⟨"asha", .admin⟩

def escalatedDay : List ExceptionOp :=
  [.create [missingInternal] none 0 1, .process "AXIS" none (300 * minute),
    .assign 1 ⟨"ravi", none⟩ supervisor (301 * minute),
    .override 1 ⟨4, "large customer", by decide⟩ supervisor (302 * minute),
    .resolve 1 ⟨"posted", .resolved⟩ supervisor (303 * minute),
    .reopen 1 ⟨"not posted"⟩ supervisor (304 * minute)]

theorem life_cycle_day :
    (∀ e ∈ (noExceptions.run shippedService escalatedDay).db.exceptions,
      Replayed ((noExceptions.run shippedService escalatedDay).db.eventsOf e.id) e.assignedTier ∧
        (e.resolvedAt.isSome = true ↔ e.status.isClosed) ∧
          1 ≤ e.assignedTier ∧ e.assignedTier ≤ 4) ∧
      ∀ op, Evolves op.lowers (noExceptions.run shippedService escalatedDay).db
        ((noExceptions.run shippedService escalatedDay).step shippedService op).db :=
  life_cycle shippedService noExceptions noExceptions_blank escalatedDay

end ExceptionSystem

end Recon
