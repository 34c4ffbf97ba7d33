import ReconEngine.Histories.Duplicates

/-!
# Auto-resolution over histories

A run of the auto-resolver takes the OPEN exceptions of tier 1 one by one. Each ends RESOLVED, or in
tier 2 with the tables as they were before it. An adjustment is posted only together with the
resolution of its exception, which never becomes OPEN again, so there is at most one.

What the classifier wrote can always be acted on or left to a person: such a run does not fail.

**The law** (`autoResolution_all_or_nothing`): a run of the auto-resolver takes each of its
exceptions to RESOLVED or to tier 2, in the attempts that `Attempts` describes; after every history
it does not fail, and no exception has two adjustments. The step is `autoResolveOne`, one lemma for
its turn; the budget of a run is carried along the list it took.

**What it does not establish.** It says nothing of two resolvers at work at once, nor of a person
who acts on the same exception between two of its statements: the operations of a history are served
one after another. Nor does it say that an action is right, only that it is whole.
-/

set_option autoImplicit false

namespace Recon

open Store (Committed)
open Store.Prog hiding pure bind

/-! ## One exception -/

/-- What became of an exception that was tried: RESOLVED, or in tier 2 with everything as before. -/
def TriedOutcome (d d' : Db) (e' : ReconException) : Prop :=
  e'.status = .resolved ∨ e'.status = .open ∧ e'.assignedTier = 2 ∧
    d'.transactions = d.transactions ∧ d'.claims = d.claims ∧ d'.results = d.results ∧
      d'.adjustments = d.adjustments

/-- One exception was tried, and no other was touched. -/
structure Tried (e : ReconException) (d d' : Db) : Prop where
  outcome : ∃ e' ∈ d'.exceptions, e'.id = e.id ∧ TriedOutcome d d' e'
  others : ∀ other ∈ d.exceptions, other.id ≠ e.id → other ∈ d'.exceptions

/-- Exceptions tried one after another. -/
inductive Attempts : List ReconException → Db → Db → Prop where
  | nil (d : Db) : Attempts [] d d
  | cons {e : ReconException} {es : List ReconException} {d d' d'' : Db} :
      Tried e d d' → Attempts es d' d'' → Attempts (e :: es) d d''

/-- Exceptions that are not among those of the run stay as they are. -/
theorem Attempts.others {es : List ReconException} {d d' : Db} (h : Attempts es d d')
    {other : ReconException} (hin : other ∈ d.exceptions) (hout : other.id ∉ es.map (·.id)) :
    other ∈ d'.exceptions := by
  induction h with
  | nil d => exact hin
  | cons htried _ ih =>
    rw [List.map_cons, List.mem_cons, not_or] at hout
    exact ih (htried.others other hin hout.1) hout.2

/-- Every exception ends RESOLVED or OPEN in tier 2. -/
theorem Attempts.outcome {es : List ReconException} {d d' : Db} (h : Attempts es d d')
    (hids : (es.map (·.id)).Nodup) : ∀ e ∈ es, ∃ e' ∈ d'.exceptions, e'.id = e.id ∧
      (e'.status = .resolved ∨ e'.status = .open ∧ e'.assignedTier = 2) := by
  induction h with
  | nil d => exact fun e he => absurd he List.not_mem_nil
  | @cons e es d d₁ d₂ htried hrest ih =>
    rw [List.map_cons, List.nodup_cons] at hids
    intro e₁ he₁
    rcases List.mem_cons.mp he₁ with rfl | he₁
    · obtain ⟨e', he', hid, hout⟩ := htried.outcome
      refine ⟨e', hrest.others he' (hid ▸ hids.1), hid, ?_⟩
      rcases hout with hs | ⟨hs, htier, -⟩
      · exact Or.inl hs
      · exact Or.inr ⟨hs, htier⟩
    · exact ih hids.2 e₁ he₁

/-! ## Adjustments -/

/-- An exception is known by its identifier, and has at most one adjustment, none while OPEN. -/
structure Posted (n : Nat) (d : Db) : Prop where
  ids : (d.exceptions.map (·.id)).Nodup
  below : ∀ e ∈ d.exceptions, e.id < n
  single : (d.adjustments.map (·.exceptionId)).Nodup
  known : ∀ a ∈ d.adjustments, a.exceptionId < n
  closed : ∀ a ∈ d.adjustments, ∀ e ∈ d.exceptions, e.id = a.exceptionId → e.status ≠ .open

namespace Posted

variable {n n' : Nat} {d d' : Db}

theorem mono (h : Posted n d) (hn : n ≤ n') : Posted n' d :=
  { h with
    below := fun e he => Nat.lt_of_lt_of_le (h.below e he) hn
    known := fun a ha => Nat.lt_of_lt_of_le (h.known a ha) hn }

theorem of_same (h : Posted n d) (he : d'.exceptions = d.exceptions)
    (ha : d'.adjustments = d.adjustments) : Posted n d' where
  ids := he ▸ h.ids
  below := he ▸ h.below
  single := ha ▸ h.single
  known := ha ▸ h.known
  closed := he ▸ ha ▸ h.closed

/-- Handling an exception does not open it. -/
theorem updated (h : Posted n d) {id : Id} {columns : ExceptionColumns}
    (hstatus : columns.status ≠ some .open) :
    Posted n ((RowWrite.updateException id columns).apply d) := by
  have hrow : ∀ e' ∈ ((RowWrite.updateException id columns).apply d).exceptions,
      ∃ e ∈ d.exceptions, e'.id = e.id ∧ (e'.status = .open → e.status = .open) := by
    intro e' he'
    obtain ⟨e, he, rfl⟩ := Store.mem_updateIn.mp he'
    refine ⟨e, he, ?_⟩
    split
    · refine ⟨rfl, fun hopen => ?_⟩
      cases hs : columns.status with
      | none => simpa [ExceptionColumns.set, hs] using hopen
      | some status =>
        have hstatus' : status = .open := by simpa [ExceptionColumns.set, hs] using hopen
        exact absurd (hstatus' ▸ hs) hstatus
    · exact ⟨rfl, fun hopen => hopen⟩
  constructor
  case ids =>
    have hids : ((RowWrite.updateException id columns).apply d).exceptions.map (·.id) =
        d.exceptions.map (·.id) := Store.map_updateIn fun _ => rfl
    exact hids.symm ▸ h.ids
  case below =>
    intro e' he'
    obtain ⟨e, he, hid, -⟩ := hrow e' he'
    exact hid ▸ h.below e he
  case single => exact h.single
  case known => exact h.known
  case closed =>
    intro a ha e' he' hid hopen
    obtain ⟨e, he, heid, hstatus'⟩ := hrow e' he'
    exact h.closed a ha e he (heid.symm.trans hid) (hstatus' hopen)

/-- New exceptions have no adjustments. -/
theorem created (h : Posted n d) (hn : n ≤ n') {rows : List ReconException}
    (hids : (rows.map (·.id)).Nodup) (hfresh : ∀ row ∈ rows, n ≤ row.id ∧ row.id < n')
    (he : d'.exceptions = d.exceptions ++ rows) (ha : d'.adjustments = d.adjustments) :
    Posted n' d' where
  ids := by
    rw [he]
    refine Store.nodup_append_of_fresh h.ids hids fun row hrow old hold => ?_
    exact Nat.ne_of_lt (Nat.lt_of_lt_of_le (h.below old hold) (hfresh row hrow).1)
  below := by
    intro e hmem
    rcases List.mem_append.mp (he ▸ hmem) with hmem | hmem
    · exact Nat.lt_of_lt_of_le (h.below e hmem) hn
    · exact (hfresh e hmem).2
  single := ha ▸ h.single
  known := ha ▸ fun a hmem => Nat.lt_of_lt_of_le (h.known a hmem) hn
  closed := by
    intro a hmem e hin hid
    rw [ha] at hmem
    rcases List.mem_append.mp (he ▸ hin) with hin | hin
    · exact h.closed a hmem e hin hid
    · have hlt := h.known a hmem
      have hge := (hfresh e hin).1
      exact absurd (hid ▸ hge) (Nat.not_le.mpr hlt)

/-- The adjustment of an exception that is resolved with it. -/
theorem posts (h : Posted n d) {e : ReconException} (he : e ∈ d.exceptions)
    {columns : ExceptionColumns} (hstatus : columns.status = some .resolved)
    {new : List LedgerAdjustment}
    (hnew : new = [] ∨ ∃ a, new = [a] ∧ a.exceptionId = e.id ∧
      e.id ∉ d.adjustments.map (·.exceptionId))
    (hexceptions : d'.exceptions = Store.updateIn (·.id) [e.id] columns.set d.exceptions)
    (ha : d'.adjustments = d.adjustments ++ new) : Posted n d' := by
  have hupdated : Posted n ((RowWrite.updateException e.id columns).apply d) :=
    h.updated (by simp [hstatus])
  rcases hnew with rfl | ⟨a, rfl, hid, hfree⟩
  · exact hupdated.of_same hexceptions (by rw [ha, List.append_nil]; rfl)
  constructor
  case ids => exact hexceptions ▸ hupdated.ids
  case below => exact hexceptions ▸ hupdated.below
  case single =>
    rw [ha, List.map_append]
    refine List.nodup_append.mpr ⟨h.single, List.nodup_singleton _, ?_⟩
    intro i hi j hj heq
    have hj' : j = e.id := (List.mem_singleton.mp hj).trans hid
    exact hfree (hj' ▸ heq ▸ hi)
  case known =>
    intro b hb
    rcases List.mem_append.mp (ha ▸ hb) with hb | hb
    · exact h.known b hb
    · rw [List.mem_singleton.mp hb, hid]
      exact h.below e he
  case closed =>
    intro b hb e' he' hid'
    rw [hexceptions] at he'
    rcases List.mem_append.mp (ha ▸ hb) with hb | hb
    · exact hupdated.closed b hb e' he' hid'
    · rw [List.mem_singleton.mp hb, hid] at hid'
      obtain ⟨old, hold, rfl⟩ := Store.mem_updateIn.mp he'
      by_cases hin : old.id ∈ [e.id]
      · rw [if_pos hin]
        simp [ExceptionColumns.set, hstatus]
      · rw [if_neg hin] at hid'
        exact absurd (List.mem_singleton.mpr hid') hin

end Posted

/-! ## What an action posts -/

section

variable {logger : AuditLogger} {e : ReconException} {now : Instant} {s : Session}

/-- An action leaves the exceptions, and posts at most one adjustment, for its exception. -/
def Posts (e : ReconException) (d d' : Db) : Prop :=
  d'.exceptions = d.exceptions ∧ ∃ new, d'.adjustments = d.adjustments ++ new ∧
    (new = [] ∨ ∃ a, new = [a] ∧ a.exceptionId = e.id ∧ e.id ∉ d.adjustments.map (·.exceptionId))

/-- Nothing is posted where exceptions and adjustments stay. -/
theorem Posts.of_same {d d' : Db} (he : d'.exceptions = d.exceptions)
    (ha : d'.adjustments = d.adjustments) : Posts e d d' :=
  ⟨he, [], by rw [ha, List.append_nil], Or.inl rfl⟩

/-- The write leaves exceptions and adjustments alone. -/
def RowWrite.LeavesPosted (w : RowWrite) : Prop :=
  ∀ d, ((w.apply d).exceptions, (w.apply d).adjustments) = (d.exceptions, d.adjustments)

/-- Writes about matches post nothing. -/
theorem ofMatching_leavesPosted {w : RowWrite} (h : w.OfMatching) : w.LeavesPosted := by
  intro d
  cases w with
  | insertException e => exact h.elim
  | updateException id columns => exact h.elim
  | insertAdjustment a => exact h.elim
  | _ => rfl

theorem ofIntake_leavesPosted {w : RowWrite} (h : w.OfIntake) : w.LeavesPosted := by
  intro d
  cases w with
  | insertException e => exact h.elim
  | updateException id columns => exact h.elim
  | insertAdjustment a => exact h.elim
  | _ => rfl

/-- Work that posts nothing leaves exceptions and adjustments as they are, however it ends. -/
theorem leavesPosted_wp {α : Type} {p : Prog α} (hp : p.Work RowWrite.LeavesPosted) (s : Session) :
    p.wp (fun _ s' => s.supply ≤ s'.supply ∧ s'.view.exceptions = s.view.exceptions ∧
        s'.view.adjustments = s.view.adjustments)
      (fun _ s' => s.supply ≤ s'.supply ∧ s'.view.exceptions = s.view.exceptions ∧
        s'.view.adjustments = s.view.adjustments) s := by
  have hkeeps := Work.wp_keeps (f := fun d : Db => (d.exceptions, d.adjustments))
    (fun (w : RowWrite) (d : Db) (hw : w.LeavesPosted) => hw d) hp s
  exact hkeeps.mono (fun _ _ h => ⟨h.1, Prod.mk.inj h.2⟩) fun _ _ h => ⟨h.1, Prod.mk.inj h.2⟩

theorem voidDuplicate_leavesPosted (records : AffectedRecords) :
    (voidDuplicate records).Work RowWrite.LeavesPosted :=
  Work.bind (record_work _ _) fun _ => Work.bind (readTransaction_work _) fun _ =>
    Work.bind (record_work _ _) fun _ => Work.bind work_tables fun _ =>
    Work.bind (work_require _ _) fun _ => Work.bind (work_lockRow _) fun _ =>
    work_put.mpr fun _ => rfl

/-- The adjustment of a fee is the exception's own, and one. -/
theorem postFeeAdjustment_posts (internal external : NormalisedTransaction) (s : Session) :
    (postFeeAdjustment e internal external).wp (fun _ s' => Posts e s.view s'.view)
      (fun _ _ => True) s := by
  unfold postFeeAdjustment
  simp only [bind_eq, wp_bind, wp_require, wp_lockRow, wp_tables, wp_put]
  split
  · split
    · rename_i hfree
      rw [Store.Session.view_write]
      refine ⟨rfl, _, rfl, Or.inr ⟨_, rfl, rfl, ?_⟩⟩
      simpa using hfree
    · trivial
  · trivial

/-- Whatever an action does, it posts at most one adjustment, for its own exception. -/
theorem act_posts (s : Session) :
    (act logger e now).wp (fun _ s' => Posts e s.view s'.view) (fun _ _ => True) s := by
  have hkeeps : ∀ {α : Type} {p : Prog α} (s₁ : Session), p.Work RowWrite.LeavesPosted →
      s₁.view = s.view → p.wp (fun _ s' => Posts e s.view s'.view) (fun _ _ => True) s₁ :=
    fun s₁ hp hview => (leavesPosted_wp hp s₁).mono
      (fun _ _ h => Posts.of_same (hview ▸ h.2.1) (hview ▸ h.2.2)) fun _ _ _ => trivial
  unfold act
  split
  · exact hkeeps s (voidDuplicate_leavesPosted _) rfl
  · exact Posts.of_same rfl rfl
  · exact Posts.of_same rfl rfl
  split
  · trivial
  rename_i category _ _ _ ruleId _
  rw [bind_eq, wp_bind, wp_record]
  refine ⟨fun i _ => ?_, fun _ => trivial⟩
  rw [bind_eq, wp_bind]
  refine (readTransaction_spec i s).mono ?_ fun _ _ _ => trivial
  rintro internal s₁ ⟨rfl, -, -⟩
  rw [bind_eq, wp_bind, wp_record]
  refine ⟨fun x _ => ?_, fun _ => trivial⟩
  rw [bind_eq, wp_bind]
  refine (readTransaction_spec x s₁).mono ?_ fun _ _ _ => trivial
  rintro external s₂ ⟨rfl, -, -⟩
  rw [bind_eq, wp_bind]
  have hsettle := (settlePair_work logger e.affectedRecords internal external ruleId now).weaken
    fun _ hw => ofMatching_leavesPosted (ofSettling_ofMatching hw)
  refine (leavesPosted_wp hsettle s₂).mono ?_ fun _ _ _ => trivial
  rintro _ s₃ ⟨-, he, ha⟩
  rw [wp_ite]
  split
  · refine (postFeeAdjustment_posts internal external s₃).mono ?_ fun _ _ _ => trivial
    rintro _ s₄ ⟨he', new, ha', hnew⟩
    exact ⟨he'.trans he, new, ha ▸ ha', ha ▸ hnew⟩
  · exact Posts.of_same he ha

/-! ## What an action may fail with -/

/-- A review that cannot be confirmed is left to a person. -/
theorem confirmMatch_leaves (id : Id) (reviewer : String) (note : Option String)
    (automated : Bool) (now : Instant) (s : Session) :
    (confirmMatch logger id reviewer note automated now).wp (fun _ _ => True)
      (fun err _ => err.leavesToPerson = true) s := by
  unfold confirmMatch lockPending
  rw [bind_eq, wp_bind]
  simp only [bind_eq, wp_bind, wp_lockRow, wp_tables]
  split
  · exact rfl
  split
  swap
  · exact rfl
  simp only [reviewTransactions, bind_eq, wp_bind, wp_lockRow, wp_tables, wp_require, pure_eq,
    wp_pure]
  split
  swap
  · exact rfl
  split
  swap
  · exact rfl
  split
  swap
  · exact rfl
  refine (markAll_spec _ _).mono ?_ fun _ _ h => h.elim
  rintro _ s₁ -
  refine (logger.append_accepted (reviewEvent_accepted _ _ _ _ _ _ _) _).mono ?_
    fun _ _ h => h.elim
  exact fun _ _ _ => trivial

/-- A pair that cannot be settled is left to a person. -/
theorem settlePair_leaves (h : Ledger s.supply s.view) (records : AffectedRecords)
    (internal external : NormalisedTransaction) (ruleId : String) :
    (settlePair logger records internal external ruleId now).wp (fun _ _ => True)
      (fun err _ => err.leavesToPerson = true) s := by
  unfold settlePair
  split
  · unfold settleMatched
    rw [bind_eq, wp_bind, wp_tables]
    split
    · exact rfl
    · split
      · exact wp_bind.mpr (confirmMatch_leaves _ _ _ _ _ s)
      · trivial
      · trivial
      · exact rfl
  · unfold settleLeftover
    simp only [bind_eq, wp_bind, wp_require, wp_tablesMarking]
    split
    swap
    · exact rfl
    split
    swap
    · exact rfl
    refine (recordPair_spec _ s h.claimBelow).mono ?_ fun _ _ h => h.elim
    rintro (_ | id) s₁ -
    · exact rfl
    · exact (markAll_spec _ s₁).mono (fun _ _ _ => trivial) fun _ _ h => h.elim

/-- The action on an exception that can be traced, and has no adjustment, is carried out or left to
a person. -/
theorem act_leaves (hledger : Ledger s.supply s.view)
    (h : Traceable s.view e.category e.affectedRecords)
    (hfree : e.id ∉ s.view.adjustments.map (·.exceptionId)) :
    (act logger e now).wp (fun _ _ => True) (fun err _ => err.leavesToPerson = true) s := by
  unfold act
  split
  · rename_i hcategory
    obtain ⟨copy, hcopy, original, horiginal, hids, hid, -⟩ := h.duplicate hcategory
    unfold voidDuplicate
    rw [bind_eq, wp_bind, wp_record, hids]
    refine ⟨fun copyId _ => ?_, nofun⟩
    rw [bind_eq, wp_bind]
    refine (readTransaction_spec copyId s).mono ?_ fun _ _ h => h.2
    rintro row s' ⟨rfl, -, -⟩
    rw [bind_eq, wp_bind, wp_record, hid]
    refine ⟨fun originalId _ => ?_, nofun⟩
    simp only [bind_eq, wp_bind, wp_tables, wp_require, wp_lockRow, wp_put]
    split
    · trivial
    · exact rfl
  · trivial
  · trivial
  split
  · exact rfl
  rename_i category _ _ _ ruleId hrule
  obtain ⟨internal, hinternal, external, hexternal, hi, hx, hfee⟩ := h.pair (by rw [hrule]; rfl)
  rw [bind_eq, wp_bind, wp_record, hi]
  refine ⟨fun i hi' => ?_, nofun⟩
  obtain rfl := Option.some.inj hi'
  rw [bind_eq, wp_bind]
  refine (readTransaction_spec internal.id s).mono ?_ fun _ _ h => h.2
  rintro internal' s₁ ⟨rfl, hmem, hid⟩
  obtain rfl := hledger.transaction_eq hmem hinternal hid
  rw [bind_eq, wp_bind, wp_record, hx]
  refine ⟨fun x hx' => ?_, nofun⟩
  obtain rfl := Option.some.inj hx'
  rw [bind_eq, wp_bind]
  refine (readTransaction_spec external.id s₁).mono ?_ fun _ _ h => h.2
  rintro external' s₂ ⟨rfl, hmem', hid'⟩
  obtain rfl := hledger.transaction_eq hmem' hexternal hid'
  rw [bind_eq, wp_bind]
  have hsettle := (settlePair_work logger e.affectedRecords internal' external' ruleId now).weaken
    fun _ hw => ofMatching_leavesPosted (ofSettling_ofMatching hw)
  refine ((settlePair_leaves hledger _ _ _ _).and (leavesPosted_wp hsettle s₂)).mono ?_
    fun _ _ h => h.1
  rintro _ s₃ ⟨-, -, -, ha⟩
  rw [wp_ite]
  split
  · rename_i hcategory
    unfold postFeeAdjustment
    simp only [bind_eq, wp_bind, wp_require, wp_lockRow, wp_tables, wp_put, ha]
    rw [if_pos (by simpa using hfee hcategory), if_pos (by simpa using hfree)]
    trivial
  · trivial

/-! ## A turn -/

/-- The records of an exception can be written to the trail. -/
theorem entries_accepted (r : AffectedRecords) :
    ∀ entry ∈ r.entries, (∃ key, entry.1 = .str key) ∧ entry.2.Accepted := by
  have hone : ∀ (key : String) (id : Option Id), ∀ entry ∈ (id.map fun i =>
      ((PyKey.str key, PyValue.str (idText i)) : PyKey × PyValue)).toList,
      (∃ key, entry.1 = .str key) ∧ entry.2.Accepted := by
    intro key id entry hentry
    obtain ⟨i, -, rfl⟩ := Option.map_eq_some_iff.mp (Option.mem_toList.mp hentry)
    exact ⟨⟨key, rfl⟩, PyValue.accepted_str _⟩
  have hmany : ∀ (key : String) (ids : List Id), ∀ entry ∈ (if ids = [] then [] else
      [((PyKey.str key, PyValue.list (ids.map fun i => .str (idText i))) : PyKey × PyValue)]),
      (∃ key, entry.1 = .str key) ∧ entry.2.Accepted := by
    intro key ids entry hentry
    split at hentry
    · exact absurd hentry List.not_mem_nil
    · rw [List.mem_singleton.mp hentry]
      refine ⟨⟨key, rfl⟩, PyValue.accepted_list fun v hv => ?_⟩
      obtain ⟨i, -, rfl⟩ := List.mem_map.mp hv
      exact PyValue.accepted_str _
  intro entry hentry
  simp only [AffectedRecords.entries, List.mem_append, or_assoc] at hentry
  rcases hentry with h | h | h | h | h | h | h | h | h | h | h
  · exact hmany _ _ entry h
  · exact hone _ _ entry h
  · exact hone _ _ entry h
  · exact hone _ _ entry h
  · exact hone _ _ entry h
  · exact hone _ _ entry h
  · exact hmany _ _ entry h
  · exact hone _ _ entry h
  · exact hmany _ _ entry h
  · split at h
    · rw [List.mem_singleton.mp h]
      exact ⟨⟨_, rfl⟩, PyValue.accepted_bool _⟩
    · exact absurd h List.not_mem_nil
  · exact hmany _ _ entry h

theorem exceptionEntry_accepted (e : ReconException) (actorId action rationale : String)
    {affected : List (PyKey × PyValue)}
    (haffected : ∀ entry ∈ affected, (∃ key, entry.1 = .str key) ∧ entry.2.Accepted)
    (before after : ExceptionStatus) (tier tier' : Nat) (now : Instant) :
    (exceptionEntry e "SYSTEM" actorId action affected (statusAndTier before tier)
      (statusAndTier after tier') rationale now).Accepted where
  actor := Or.inl rfl
  aware := rfl
  affected := by
    apply PyValue.accepted_dict
    intro entry hentry
    rcases List.mem_cons.mp hentry with rfl | hentry
    · exact ⟨⟨_, rfl⟩, PyValue.accepted_str _⟩
    · exact haffected entry hentry
  before := PyValue.accepted_dict (by simp [statusAndTier])
  after := PyValue.accepted_dict (by simp [statusAndTier])

/-- What becomes of the row. -/
def outcomeColumns (now : Instant) (acted : Bool) : ExceptionColumns :=
  if acted then
    { status := some .resolved, resolvedAt := some (some now), resolvedBy := some (some autoResolver) }
  else { assignedTier := some 2 }

/-- The outcome is written in any case, and touches its row only. -/
theorem autoOutcome_writes (acted : Bool) (s : Session) :
    (autoOutcome logger now e acted).wp (fun _ s' => s.supply ≤ s'.supply ∧ ∃ event row,
        s'.view = (RowWrite.insertAudit row).apply ((RowWrite.insertEvent event).apply
          ((RowWrite.updateException e.id (outcomeColumns now acted)).apply s.view)))
      (fun _ _ => False) s := by
  unfold autoOutcome
  cases acted with
  | true =>
    simp only [if_true, autoResolve, bind_eq, wp_bind, wp_put]
    refine (logger.append_accepted (exceptionEntry_accepted e _ _ _ (entries_accepted _) _ _ _ _ _)
      _).mono ?_ fun _ _ h => h
    rintro row s' ⟨-, rfl⟩
    refine ⟨Nat.le_succ _, ⟨e.id, .resolved, some 1, 1, autoResolver, now⟩, row, ?_⟩
    rw [Store.Session.view_write, Store.Session.view_take, Store.Session.view_write,
      Store.Session.view_write]
    rfl
  | false =>
    simp only [Bool.false_eq_true, if_false, autoEscalate, bind_eq, wp_bind, wp_put]
    refine (logger.append_accepted (exceptionEntry_accepted e _ _ _
      (fun _ h => absurd h List.not_mem_nil) _ _ _ _ _) _).mono ?_ fun _ _ h => h
    rintro row s' ⟨-, rfl⟩
    refine ⟨Nat.le_succ _, ⟨e.id, .escalated, some 1, 2, autoResolver, now⟩, row, ?_⟩
    rw [Store.Session.view_write, Store.Session.view_take, Store.Session.view_write,
      Store.Session.view_write]
    rfl

/-- The tables after a turn: the exception updated, and what its action posted. -/
structure Turned (e : ReconException) (now : Instant) (acted : Bool) (d d' : Db) : Prop where
  exceptions : d'.exceptions = Store.updateIn (·.id) [e.id] (outcomeColumns now acted).set d.exceptions
  posts : ∃ new, d'.adjustments = d.adjustments ++ new ∧
    (new = [] ∨ ∃ a, new = [a] ∧ a.exceptionId = e.id ∧ e.id ∉ d.adjustments.map (·.exceptionId))
  untouched : acted = false → d'.transactions = d.transactions ∧ d'.claims = d.claims ∧
    d'.results = d.results ∧ d'.adjustments = d.adjustments

/-- A turn is an attempt: the exception is RESOLVED with all that its action wrote, or in tier 2
with nothing. -/
theorem Turned.tried {acted : Bool} {d d' : Db} (h : Turned e now acted d d')
    (he : e ∈ d.exceptions) (hopen : e.status = .open) : Tried e d d' where
  outcome := by
    refine ⟨(outcomeColumns now acted).set e, ?_, rfl, ?_⟩
    · rw [h.exceptions]
      exact Store.mem_updateIn.mpr ⟨e, he, if_pos (List.mem_singleton_self _)⟩
    · cases acted with
      | true => exact Or.inl rfl
      | false => exact Or.inr ⟨hopen, rfl, h.untouched rfl⟩
  others := by
    intro other hin hne
    rw [h.exceptions]
    exact Store.mem_updateIn.mpr ⟨other, hin, if_neg fun hid => hne (List.mem_singleton.mp hid)⟩

/-- A turn keeps adjustments to one for each exception. -/
theorem Turned.posted {n n' : Nat} {acted : Bool} {d d' : Db} (h : Turned e now acted d d')
    (hd : Posted n d) (hn : n ≤ n') (he : e ∈ d.exceptions) : Posted n' d' := by
  refine Posted.mono ?_ hn
  cases acted with
  | true =>
    obtain ⟨new, ha, hnew⟩ := h.posts
    exact hd.posts he rfl hnew h.exceptions ha
  | false =>
    have hupdated : Posted n ((RowWrite.updateException e.id (outcomeColumns now false)).apply d) :=
      hd.updated (by simp [outcomeColumns])
    exact hupdated.of_same h.exceptions (h.untouched rfl).2.2.2

/-- The outcome after an action that led from `s` to `s₁`. -/
theorem autoOutcome_turned {fails : Prop} {s₁ : Session} (acted : Bool)
    (hsupply : s.supply ≤ s₁.supply) (hposts : Posts e s.view s₁.view)
    (huntouched : acted = false → s₁.view = s.view) :
    ((autoOutcome logger now e acted).bind fun _ => Store.Prog.pure acted).wp
      (fun acted s' => s.supply ≤ s'.supply ∧ Turned e now acted s.view s'.view)
      (fun _ _ => fails) s₁ := by
  rw [wp_bind]
  refine (autoOutcome_writes acted s₁).mono ?_ fun _ _ h => h.elim
  rintro _ s₂ ⟨hsupply₂, event, row, hview⟩
  obtain ⟨hexceptions, new, ha, hnew⟩ := hposts
  refine ⟨Nat.le_trans hsupply hsupply₂, ?_⟩
  rw [hview]
  refine ⟨?_, ⟨new, ha, hnew⟩, fun hacted => ?_⟩
  · exact congrArg (Store.updateIn (·.id) [e.id] (outcomeColumns now acted).set) hexceptions
  · rw [huntouched hacted]
    exact ⟨rfl, rfl, rfl, rfl⟩

/-- The action in its savepoint, which gives back what a failing one wrote. -/
theorem attemptAct_spec {fails : Prop} (hact : (act logger e now).wp (fun _ _ => True)
      (fun err _ => err.leavesToPerson = true ∨ fails) s) :
    (attempt (do
      act logger e now
      return true) fun err => if err.leavesToPerson then return false else .fail err).wp
      (fun acted s₁ => s.supply ≤ s₁.supply ∧ Posts e s.view s₁.view ∧
        (acted = false → s₁.view = s.view)) (fun _ _ => fails) s := by
  refine wp_attemptAct (((hact.and (act_posts s)).and ((act_work logger e now).wp_frame s)).mono
    ?_ fun _ _ h => h.1.1) ?_
  · rintro _ s₁ ⟨⟨-, hposts⟩, -, hsupply, -⟩
    exact ⟨hsupply, hposts, nofun⟩
  · exact fun s₁ hsupply hback => ⟨hsupply, hback ▸ Posts.of_same rfl rfl, fun _ => hback⟩

/-- One exception. A turn that does not fail is all or nothing, and it fails only where its action
fails with an error that is not left to a person. -/
theorem autoResolveOne_turned {fails : Prop} (hact : (act logger e now).wp (fun _ _ => True)
      (fun err _ => err.leavesToPerson = true ∨ fails) s) :
    (autoResolveOne logger now e).wp
      (fun acted s' => s.supply ≤ s'.supply ∧ Turned e now acted s.view s'.view)
      (fun _ _ => fails) s := by
  unfold autoResolveOne
  rw [bind_eq, wp_bind]
  refine (attemptAct_spec hact).mono (fun acted s₁ h => ?_) fun _ _ h => h
  exact autoOutcome_turned acted h.1 h.2.1 h.2.2

/-! ## The run -/

/-- The turns of a run, each of which finds its exception as the run read it. -/
theorem eachRow_attempts {K : Nat → Db → Prop} {fails : Prop} :
    ∀ (es : List ReconException), (es.map (·.id)).Nodup →
      (∀ e ∈ es, ∀ s : Session, K s.supply s.view → e ∈ s.view.exceptions →
        (autoResolveOne logger now e).wp
          (fun _ s' => K s'.supply s'.view ∧ Tried e s.view s'.view) (fun _ _ => fails) s) →
      ∀ s : Session, K s.supply s.view → (∀ e ∈ es, e ∈ s.view.exceptions) →
        (eachRow (autoResolveOne logger now) es).wp
          (fun _ s' => K s'.supply s'.view ∧ Attempts es s.view s'.view) (fun _ _ => fails) s
  | [], _, _, s, hs, _ => ⟨hs, .nil _⟩
  | e :: es, hids, turn, s, hs, hmem => by
    rw [List.map_cons, List.nodup_cons] at hids
    unfold eachRow
    rw [bind_eq, wp_bind]
    refine (turn e List.mem_cons_self s hs (hmem e List.mem_cons_self)).mono ?_ fun _ _ h => h
    rintro acted s₁ ⟨hs₁, htried⟩
    rw [bind_eq, wp_bind]
    have hrest := eachRow_attempts es hids.2 (fun e' he' => turn e' (List.mem_cons_of_mem e he'))
      s₁ hs₁ fun e' he' => htried.others e' (hmem e' (List.mem_cons_of_mem e he')) fun hid =>
        hids.1 (hid ▸ List.mem_map_of_mem he')
    refine hrest.mono ?_ fun _ _ h => h
    rintro _ s₂ ⟨hs₂, hattempts⟩
    exact ⟨hs₂, .cons htried hattempts⟩

/-- A run is its turns, one after another, over the exceptions it took at its start. `K` is what the
turns keep, `fails` what may end the run early. -/
theorem autoResolverRun_attempts {K : Nat → Db → Prop} {fails : Prop} {bankCode : String}
    {runId : Option Id} (hids : (s.view.exceptions.map (·.id)).Nodup) (hs : K s.supply s.view)
    (turn : ∀ e ∈ s.view.autoResolvable bankCode runId, ∀ s' : Session, K s'.supply s'.view →
      e ∈ s'.view.exceptions → (autoResolveOne logger now e).wp
        (fun _ s'' => K s''.supply s''.view ∧ Tried e s'.view s''.view) (fun _ _ => fails) s') :
    (autoResolverRun logger bankCode runId now).wp
      (fun _ s' => K s'.supply s'.view ∧
        Attempts (s.view.autoResolvable bankCode runId) s.view s'.view ∧
        ∀ e ∈ s.view.autoResolvable bankCode runId, ∃ e' ∈ s'.view.exceptions, e'.id = e.id ∧
          (e'.status = .resolved ∨ e'.status = .open ∧ e'.assignedTier = 2))
      (fun _ _ => fails) s := by
  have hnodup : ((s.view.autoResolvable bankCode runId).map (·.id)).Nodup :=
    picked_ids hids _ _
  unfold autoResolverRun
  rw [bind_eq, wp_bind, wp_tables, bind_eq, wp_bind, lockAll_wp, bind_eq, wp_bind]
  refine (eachRow_attempts _ hnodup turn s hs fun e he => (mem_autoResolvable.mp he).1).mono ?_
    fun _ _ h => h
  rintro _ s' ⟨hs', hattempts⟩
  exact ⟨hs', hattempts, hattempts.outcome hnodup⟩

/-- A run in any state whose exceptions have identifiers of their own. -/
theorem autoResolverRun_attempts_any (bankCode : String) (runId : Option Id)
    (hids : (s.view.exceptions.map (·.id)).Nodup) :
    (autoResolverRun logger bankCode runId now).wp
      (fun _ s' => Attempts (s.view.autoResolvable bankCode runId) s.view s'.view ∧
        ∀ e ∈ s.view.autoResolvable bankCode runId, ∃ e' ∈ s'.view.exceptions, e'.id = e.id ∧
          (e'.status = .resolved ∨ e'.status = .open ∧ e'.assignedTier = 2))
      (fun _ _ => True) s := by
  have turn : ∀ e ∈ s.view.autoResolvable bankCode runId, ∀ s' : Session, True →
      e ∈ s'.view.exceptions → (autoResolveOne logger now e).wp
        (fun _ s'' => True ∧ Tried e s'.view s''.view) (fun _ _ => True) s' := by
    intro e he s' _ hmem
    have hact : (act logger e now).wp (fun _ _ => True)
        (fun err _ => err.leavesToPerson = true ∨ True) s' :=
      (act_posts s').mono (fun _ _ _ => trivial) fun _ _ _ => Or.inr trivial
    refine (autoResolveOne_turned hact).mono ?_ fun _ _ h => h
    rintro acted s'' ⟨-, hturned⟩
    exact ⟨trivial, hturned.tried hmem (mem_autoResolvable.mp he).2.2.1⟩
  exact (autoResolverRun_attempts (K := fun _ _ => True) hids trivial turn).mono
    (fun _ _ h => h.2) fun _ _ h => h

/-- What a run relies on while it works on the exceptions it read. -/
structure Working (es : List ReconException) (n : Nat) (d : Db) : Prop where
  sound : Sound n d
  read : Read es d
  posted : Posted n d

/-- A turn on tables as the classifier left them does not fail. -/
theorem autoResolveOne_working {es : List ReconException} (he : e ∈ es) (hopen : e.status = .open)
    (hs : Working es s.supply s.view) (hmem : e ∈ s.view.exceptions) :
    (autoResolveOne logger now e).wp
      (fun _ s' => Working es s'.supply s'.view ∧ Tried e s.view s'.view) (fun _ _ => False) s := by
  have hfree : e.id ∉ s.view.adjustments.map (·.exceptionId) := by
    intro hin
    obtain ⟨a, ha, hid⟩ := List.mem_map.mp hin
    exact hs.posted.closed a ha e hmem hid.symm hopen
  have hact : (act logger e now).wp (fun _ _ => True)
      (fun err _ => err.leavesToPerson = true ∨ False) s :=
    (act_leaves hs.sound.ledger (hs.read.2 e he) hfree).mono (fun _ _ h => h) fun _ _ => Or.inl
  have hgrows : Grows (S := schema) fun n d => Sound n d ∧ Read es d :=
    fun _ _ _ hn h => ⟨sound_grows _ _ _ hn h.1, h.2⟩
  have hkept := (autoResolveOne_keeps hgrows (fun n w d hw h =>
    ⟨h.1.of_same ((ofHandling_leavesMatches hw).same d), h.2.steady (ofHandling_steady hw d)⟩)
    (act_traced logger now he)).kept s ⟨hs.sound, hs.read⟩
  refine ((autoResolveOne_turned hact).and hkept).mono ?_ fun _ _ h => h.1
  rintro acted s' ⟨⟨hsupply, hturned⟩, hsound, hread⟩
  exact ⟨⟨hsound, hread, hturned.posted hs.posted hsupply hmem⟩, hturned.tried hmem hopen⟩

theorem autoResolverRun_working {bankCode : String} {runId : Option Id}
    (htraced : Traced s.supply s.view) (hposted : Posted s.supply s.view) :
    (autoResolverRun logger bankCode runId now).wp
      (fun _ s' => Posted s'.supply s'.view ∧
        Attempts (s.view.autoResolvable bankCode runId) s.view s'.view ∧
        ∀ e ∈ s.view.autoResolvable bankCode runId, ∃ e' ∈ s'.view.exceptions, e'.id = e.id ∧
          (e'.status = .resolved ∨ e'.status = .open ∧ e'.assignedTier = 2))
      (fun _ _ => False) s := by
  have hstart : Working (s.view.autoResolvable bankCode runId) s.supply s.view :=
    ⟨htraced.1, ⟨htraced.2, fun e he => htraced.2.exceptions e (mem_autoResolvable.mp he).1⟩,
      hposted⟩
  refine (autoResolverRun_attempts hposted.ids hstart fun e he s' hs' hmem =>
    autoResolveOne_working he (mem_autoResolvable.mp he).2.2.1 hs' hmem).mono ?_ fun _ _ h => h
  exact fun _ s' h => ⟨h.1.posted, h.2⟩

end

/-! ## Every history -/

theorem posted_grows : Grows (S := schema) Posted := fun _ _ _ hn h => h.mono hn

theorem posted_of_leaves {α : Type} {p : Prog α} (hp : p.Work RowWrite.LeavesPosted) :
    p.Keeps Posted :=
  Keeps.of_writes posted_grows (fun _ w d (hw : w.LeavesPosted) h => by
    obtain ⟨he, ha⟩ := Prod.mk.inj (hw d)
    exact h.of_same he ha) hp

theorem ofHandling_posted {n : Nat} {w : RowWrite} {d : Db} (hw : w.OfHandling)
    (h : Posted n d) : Posted n (w.apply d) := by
  cases w with
  | updateException id columns => exact h.updated hw
  | insertEvent v => exact h.of_same rfl rfl
  | insertAudit row => exact h.of_same rfl rfl
  | _ => exact hw.elim

/-- New exceptions have no adjustments. -/
theorem persist_posted (svc : ExceptionService) (candidates : List Candidate) (runId : Option Id)
    (now : Instant) (batchCount : Nat) :
    (svc.persist candidates runId now batchCount).Keeps Posted where
  work := (svc.persist_ofCreation _ _ _ _).weaken fun _ _ => trivial
  kept s hs := by
    have hkeeps := Work.wp_keeps (f := fun d : Db => d.adjustments) (fun w d hw => by
      cases w with
      | insertException e => rfl
      | insertEvent e => rfl
      | insertAudit row => rfl
      | _ => exact hw.elim) (svc.persist_ofCreation candidates runId now batchCount) s
    refine ((persist_creates svc candidates runId now batchCount s).and hkeeps).mono ?_
      fun _ _ _ => trivial
    rintro _ s' ⟨⟨rows, hsupply, hids, hfresh, -, he, -⟩, -, ha⟩
    exact hs.created hsupply hids hfresh he ha

theorem classifyWith_posted (svc : ExceptionClassifier)
    (candidates : Db → Except ReconError (List Candidate)) (runId : Id) (now : Instant) :
    (svc.classifyWith candidates runId now).Keeps Posted :=
  (Keeps.of_reads posted_grows work_tables).bind fun _ =>
    (Keeps.of_reads posted_grows (work_ofExcept _)).bind fun _ => persist_posted _ _ _ _ _

theorem classifyRun_posted (svc : ExceptionClassifier) (bankCode : String) (runId : Id)
    (now : Instant) (asOfDate : Option Date) (staleAfterDays : Option Int) (range : DateRange) :
    (svc.classifyRun bankCode runId now asOfDate staleAfterDays range).Keeps Posted := by
  have hreads : ∀ {α : Type} {p : Prog α}, p.Work (fun _ => False) → p.Keeps Posted :=
    fun hp => Keeps.of_reads posted_grows hp
  refine Keeps.bind ?_ fun _ => (classifyWith_posted _ _ _ _).bind fun _ =>
    (classifyWith_posted _ _ _ _).bind fun _ => (classifyWith_posted _ _ _ _).bind fun _ =>
    keeps_pure _
  refine (hreads (work_require _ _)).bind fun _ => (hreads work_tables).bind fun _ =>
    (hreads (work_ofExcept _)).bind fun found => ?_
  obtain ⟨duplicates, copies⟩ := found
  exact (hreads (work_findUnmatched _ _ _)).bind fun _ =>
    (hreads (work_findUnmatched _ _ _)).bind fun _ => (hreads work_tables).bind fun _ =>
    (hreads (work_ofExcept _)).bind fun _ => persist_posted _ _ _ _ _

theorem classifyIngestionFile_posted (svc : ExceptionClassifier) (file : Id) (now : Instant) :
    (svc.classifyIngestionFile file now).Keeps Posted := by
  refine (Keeps.of_reads posted_grows work_tables).bind fun d => ?_
  split
  · exact keeps_fail _
  · exact persist_posted _ _ _ _ _

/-- Traced tables whose adjustments are posted with their resolutions. -/
abbrev Booked (n : Nat) (d : Db) : Prop := Traced n d ∧ Posted n d

theorem booked_grows : Grows (S := schema) Booked :=
  fun _ _ _ hn h => ⟨traced_grows _ _ _ hn h.1, h.2.mono hn⟩

theorem ofHandling_booked {n : Nat} {w : RowWrite} {d : Db} (hw : w.OfHandling)
    (h : Booked n d) : Booked n (w.apply d) :=
  ⟨⟨h.1.1.of_same ((ofHandling_leavesMatches hw).same d), h.1.2.steady (ofHandling_steady hw d)⟩,
    ofHandling_posted hw h.2⟩

theorem autoResolverRun_booked (logger : AuditLogger) (bankCode : String) (runId : Option Id)
    (now : Instant) : (autoResolverRun logger bankCode runId now).Keeps Booked :=
  (autoResolverRun_traced _ _ _ _).and_given fun _ htraced hposted =>
    (autoResolverRun_working htraced hposted).mono (fun _ _ h => h.1) fun _ _ _ => trivial

theorem process_booked (p : IngestionPipeline) (up : Upload) (now : Instant) :
    (p.process up now).Keeps Booked := by
  apply process_keeps booked_grows
  · intro n w d hw h
    obtain ⟨he, ha⟩ := Prod.mk.inj (ofIntake_leavesPosted hw d)
    exact ⟨⟨h.1.1.of_same ((ofIntake_leavesMatches hw).same d), h.1.2.steady (ofIntake_steady hw d)⟩,
      h.2.of_same he ha⟩
  · intro file n d canonical raw h
    exact ⟨⟨insertTransaction_sound h.1.1, h.1.2.steady (insertTransaction_steady d rfl)⟩,
      (h.2.mono (Nat.le_succ n)).of_same rfl rfl⟩
  · exact fun file => (classifyIngestionFile_traced _ _ _).and (classifyIngestionFile_posted _ _ _)

/-- Every operation keeps that. -/
theorem Operation.booked (op : Operation) : op.program.Keeps Booked := by
  have hmatching : ∀ {p : Prog Unit}, p.Keeps Traced → p.Work RowWrite.OfMatching →
      p.Keeps Booked := fun htraced hwork =>
    htraced.and (posted_of_leaves (hwork.weaken fun _ hw => ofMatching_leavesPosted hw))
  cases op with
  | ingest p up now => exact (process_booked p up now).bind fun _ => keeps_pure _
  | level o bankCode l => exact hmatching (Operation.level o bankCode l).traced (levelProgram_work l)
  | classify svc bankCode runId now asOfDate staleAfterDays range =>
    exact ((classifyRun_traced _ _ _ _ _ _ _).and (classifyRun_posted _ _ _ _ _ _ _)).bind
      fun _ => keeps_pure _
  | autoResolve logger bankCode runId now =>
    exact (autoResolverRun_booked _ _ _ _).bind fun _ => keeps_pure _
  | escalate logger bankCode runId now =>
    exact (escalate_keeps booked_grows (fun _ _ _ hw => ofHandling_booked (ofTriage_ofHandling hw))
      (autoResolverRun_booked _ _ _ _)).bind fun _ => keeps_pure _
  | handle logger id principal now h =>
    exact Keeps.of_writes booked_grows (fun _ _ _ => ofHandling_booked) (handling_work _ _ _ _ h)
  | confirm logger id reviewer note now =>
    exact hmatching (Operation.confirm logger id reviewer note now).traced
      (Work.bind ((confirmMatch_work _ _ _ _ _ _).weaken fun _ => ofSettling_ofMatching)
        fun _ => work_pure _)
  | reject logger id reviewer reason now =>
    exact hmatching (Operation.reject logger id reviewer reason now).traced
      (Work.bind (rejectMatch_work _ _ _ _ _) fun _ => work_pure _)
  | create logger internalId externalId user note now =>
    exact hmatching (Operation.create logger internalId externalId user note now).traced
      (Work.bind ((createMatch_work _ _ _ _ _ _).weaken fun _ => levelWrite_ofMatching)
        fun _ => work_pure _)
  | unmatch logger id user reason now =>
    exact hmatching (Operation.unmatch logger id user reason now).traced
      (Work.bind (unmatch_work _ _ _ _ _) fun _ => work_pure _)

/-- No exception was raised and no adjustment posted. -/
structure Unbooked (c : Committed schema) : Prop extends Unclassified c where
  adjustments : c.db.adjustments = []

theorem Unbooked.posted {c : Committed schema} (h : Unbooked c) : Posted c.supply c.db where
  ids := by
    rw [h.exceptions]
    exact List.nodup_nil
  below := by simp [h.exceptions]
  single := by
    rw [h.adjustments]
    exact List.nodup_nil
  known := by simp [h.adjustments]
  closed := by simp [h.adjustments]

/-- Every history keeps the tables such that the auto-resolver can work on them. -/
theorem operate_booked {c : Committed schema} (h : Unbooked c) (ops : List Operation) :
    Booked (operate c ops).supply (operate c ops).db :=
  have hstart : Booked c.supply c.db := ⟨operate_traced h.toUnclassified [], h.posted⟩
  Keeps.history booked_grows Operation.booked hstart ops

/-! ## All or nothing -/

/-- **Auto-resolution.** In any state whose exceptions have identifiers of their own, a run that does
not fail tries the OPEN exceptions of tier 1 of the bank and the run one after another, and leaves
each RESOLVED or OPEN in tier 2; one that it moves to tier 2 leaves transactions, claims, results and
adjustments as they were before it was tried. After any history the run does not fail, and no
exception has two adjustments. -/
theorem autoResolution_all_or_nothing (logger : AuditLogger) (bankCode : String)
    (runId : Option Id) (now : Instant) :
    (∀ s : Session, (s.view.exceptions.map (·.id)).Nodup →
      (autoResolverRun logger bankCode runId now).wp
        (fun _ s' => Attempts (s.view.autoResolvable bankCode runId) s.view s'.view ∧
          ∀ e ∈ s.view.autoResolvable bankCode runId, ∃ e' ∈ s'.view.exceptions, e'.id = e.id ∧
            (e'.status = .resolved ∨ e'.status = .open ∧ e'.assignedTier = 2))
        (fun _ _ => True) s) ∧
    ∀ (c : Committed schema) (ops : List Operation), Unbooked c →
      ((operate c ops).db.exceptions.map (·.id)).Nodup ∧
      (autoResolverRun logger bankCode runId now).wp (fun _ _ => True) (fun _ _ => False)
        (operate c ops).session ∧
      ((operate c ops).db.adjustments.map (·.exceptionId)).Nodup := by
  refine ⟨fun s hids => autoResolverRun_attempts_any bankCode runId hids, fun c ops h => ?_⟩
  obtain ⟨htraced, hposted⟩ := operate_booked h ops
  refine ⟨hposted.ids, ?_, hposted.single⟩
  exact (autoResolverRun_working (s := (operate c ops).session) htraced hposted).mono
    (fun _ _ _ => trivial) fun _ _ h => h

theorem emptyDay_unbooked : Unbooked emptyDay := ⟨emptyDay_unclassified, rfl⟩

/-- The copied file, before the run that voids its first row. -/
@[irreducible] def copiedDay : Session := (operate emptyDay copiedFile.dropLast).session

theorem copiedDay_ids : (copiedDay.view.exceptions.map (·.id)).Nodup := by decide +kernel

theorem autoResolution_all_or_nothing_copiedFile :
    (autoResolverRun ⟨constantDigests⟩ "HDFC" (some 1) 40).wp
      (fun _ s' => Attempts (copiedDay.view.autoResolvable "HDFC" (some 1))
          copiedDay.view s'.view ∧
        ∀ e ∈ copiedDay.view.autoResolvable "HDFC" (some 1),
          ∃ e' ∈ s'.view.exceptions, e'.id = e.id ∧
            (e'.status = .resolved ∨ e'.status = .open ∧ e'.assignedTier = 2))
      (fun _ _ => True) copiedDay ∧
    ((operate emptyDay copiedFile).db.exceptions.map (·.id)).Nodup ∧
    (autoResolverRun ⟨constantDigests⟩ "HDFC" (some 1) 40).wp (fun _ _ => True) (fun _ _ => False)
      (operate emptyDay copiedFile).session ∧
    ((operate emptyDay copiedFile).db.adjustments.map (·.exceptionId)).Nodup :=
  have h := autoResolution_all_or_nothing ⟨constantDigests⟩ "HDFC" (some 1) 40
  ⟨h.1 copiedDay copiedDay_ids, h.2 emptyDay copiedFile emptyDay_unbooked⟩

end Recon
