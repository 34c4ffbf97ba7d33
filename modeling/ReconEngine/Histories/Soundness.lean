import ReconEngine.Histories.Operations

/-!
# Sound tables

The invariant of every history: the matching tables agree with each other, and the rows of a group
stand or fall together. Each family of operations keeps it, a level through what it accounts for, a
review or an undone match as a decision that fits.

**The law** (`operate_sound`): the tables are sound after every history, from any tables in which
nothing is matched yet. The two halves are kept apart: `Ledger` speaks of single rows and claims,
`GroupsAgree` of the rows of a group, and a write about no group keeps the second for free.

**What it does not establish.** Soundness says that the tables agree with each other. Whether two
transactions ought to have been matched is the business of the levels (`Matching.ExactSound`,
`Matching.GroupSound`, `Matching.Evidence`).
-/

set_option autoImplicit false

namespace Recon

open Store (Committed)
open Store.Prog hiding pure bind

/-! ## The invariant -/

/-- The tables agree, and so do the rows of every group. -/
structure Sound (n : Nat) (d : Db) : Prop where
  ledger : Ledger n d
  groups : GroupsAgree n d

theorem sound_grows : Grows (S := schema) Sound :=
  fun _ _ _ hn h => ⟨h.ledger.mono hn, h.groups.mono hn⟩

/-- The write touches no transaction, result or claim. -/
def RowWrite.LeavesMatches : RowWrite → Prop
  | .insertTransaction _ | .transactionStatus .. | .voidTransaction .. | .insertResult _
  | .resultStatus .. | .insertClaim _ | .claimResult .. | .releaseClaim _ => False
  | _ => True

/-- Writes that leave matches alone leave the three tables as they are. -/
theorem RowWrite.LeavesMatches.same {w : RowWrite} (h : w.LeavesMatches) (d : Db) :
    (w.apply d).transactions = d.transactions ∧ (w.apply d).results = d.results ∧
      (w.apply d).claims = d.claims := by
  cases w <;> first
    | exact h.elim
    | exact ⟨rfl, rfl, rfl⟩

theorem Sound.of_same {n : Nat} {d d' : Db} (h : Sound n d)
    (hsame : d'.transactions = d.transactions ∧ d'.results = d.results ∧ d'.claims = d.claims) :
    Sound n d' where
  ledger := h.ledger.of_same hsame.1 hsame.2.1 hsame.2.2
  groups := by
    obtain ⟨-, hresults, -⟩ := hsame
    obtain ⟨known, stands, agree⟩ := h.groups
    rw [← hresults] at known stands agree
    exact ⟨known, stands, agree⟩

theorem leavesMatches_sound {α : Type} {p : Prog α} (h : p.Work RowWrite.LeavesMatches) :
    p.Keeps Sound :=
  Keeps.of_writes sound_grows (fun _ _ d hw hd => hd.of_same (hw.same d)) h

/-! ## Levels -/

/-- A row of a group is matched at once. -/
def MatchColumns.AutoGroup (m : MatchColumns) : Prop :=
  m.matchGroupId ≠ none → m.status = .autoMatched

/-- New rows whose groups are new and matched at once. -/
theorem GroupsAgree.record {n n' : Nat} {d d' : Db} {new : List MatchResult}
    (h : GroupsAgree n d) (hn : n ≤ n') (hresults : d'.results = d.results ++ new)
    (hrange : ∀ r ∈ new, ∀ g : Id, r.matchGroupId = some g → n ≤ g ∧ g < n')
    (hnew : ∀ r ∈ new, r.AutoGroup) : GroupsAgree n' d' := by
  have hapart : ∀ r ∈ d.results, ∀ r' ∈ new, r.matchGroupId ≠ none →
      r.matchGroupId ≠ r'.matchGroupId := by
    intro r hr r' hr' hne heq
    obtain ⟨g, hg⟩ := Option.ne_none_iff_exists'.mp hne
    have hlt := h.known r hr g hg
    exact absurd (hrange r' hr' g (heq ▸ hg)).1 (Nat.not_le.mpr hlt)
  constructor
  · intro r hr g hg
    rw [hresults] at hr
    rcases List.mem_append.mp hr with hr | hr
    · exact Nat.lt_of_lt_of_le (h.known r hr g hg) hn
    · exact (hrange r hr g hg).2
  · intro r hr hne
    rw [hresults] at hr
    rcases List.mem_append.mp hr with hr | hr
    · exact h.stands r hr hne
    · exact Or.inl (hnew r hr hne)
  · intro r hr r' hr' hne heq
    rw [hresults] at hr hr'
    rcases List.mem_append.mp hr with hr | hr
    · rcases List.mem_append.mp hr' with hr' | hr'
      · exact h.agree r hr r' hr' hne heq
      · exact absurd heq (hapart r hr r' hr' hne)
    · rcases List.mem_append.mp hr' with hr' | hr'
      · exact absurd heq.symm (hapart r' hr' r hr (heq ▸ hne))
      · rw [hnew r hr hne, hnew r' hr' (heq ▸ hne)]

section

variable {o : Orchestrator} {bankCode : String} {s : Session}

/-- The rows since `s` are matched at once where they are of groups. -/
def AutoGroups (s s' : Session) : Prop :=
  ∃ new, s.view.Advanced s'.view new ∧ ∀ r ∈ new, r.AutoGroup

/-- A level whose rows are in no group, or in new groups of matched rows, adds such groups only. -/
theorem OnPools.autoGroups {α : Type} {ok : MatchColumns → Prop} {p : Prog α} {range : DateRange}
    (hp : OnPools ok (s.view.findUnmatched bankCode .internal range)
      (s.view.findUnmatched bankCode .external range) p)
    (hok : ∀ m, ok m → m.AutoGroup) :
    p.wp (fun _ s' => AutoGroups s s') (fun _ _ => True) s := by
  refine (Accounted.level_adds hp).mono ?_ fun _ _ _ => trivial
  rintro _ s' ⟨-, new, hadv, hrows⟩
  exact ⟨new, hadv, fun r hr => hok _ (hrows r hr).1⟩

/-- A row of no group is written on its own. -/
theorem autoGroup_of_none {m : MatchColumns} (h : m.matchGroupId = none) : m.AutoGroup :=
  fun hne => absurd h hne

theorem AutoGroups.refl (s : Session) : AutoGroups s s :=
  ⟨[], Db.Advanced.refl _, fun _ h => absurd h List.not_mem_nil⟩

theorem AutoGroups.trans {s s' s'' : Session} (h : AutoGroups s s') (h' : AutoGroups s' s'') :
    AutoGroups s s'' := by
  obtain ⟨new, hadv, hnew⟩ := h
  obtain ⟨new', hadv', hnew'⟩ := h'
  refine ⟨new ++ new', hadv.trans hadv', fun r hr => ?_⟩
  exact (List.mem_append.mp hr).elim (hnew r) (hnew' r)

theorem setBasedStage_autoGroups (h : Ledger s.supply s.view) :
    (o.setBasedStage bankCode).wp (fun _ s' => AutoGroups s s') (fun _ _ => True) s := by
  unfold Orchestrator.setBasedStage
  split
  · refine (setBasedRun_spec o.run bankCode o.range h.transactionIds).mono ?_ fun _ _ _ => trivial
    rintro _ s' ⟨hview, -⟩
    refine ⟨_, hview ▸ (Db.Advanced.record _ _ _).trans (Db.Advanced.setStatus _ _), ?_⟩
    intro r hr
    rw [List.append_nil] at hr
    obtain ⟨pair, -, hcolumns⟩ := List.mem_map.mp (mem_resultRows hr).1
    exact fun _ => hcolumns ▸ rfl
  · exact wp_pure.mpr (AutoGroups.refl s)

theorem exactStage_autoGroups :
    (o.exactStage bankCode).wp (fun _ s' => AutoGroups s s') (fun _ _ => True) s :=
  wp_bind.mpr (wp_pools.mpr ((exactRun_onPools _ _ _).autoGroups fun _ hm _ => hm.1))

theorem crossCurrencyStage_autoGroups (rules : RuleStageConfig) :
    (o.crossCurrencyStage bankCode rules).wp (fun _ s' => AutoGroups s s') (fun _ _ => True) s := by
  unfold Orchestrator.crossCurrencyStage
  split
  · refine wp_bind.mpr (wp_pools.mpr (wp_bind.mpr ?_))
    exact crossCurrencyRun_onPools.autoGroups fun _ hm _ => hm.1
  · exact wp_pure.mpr (AutoGroups.refl s)

/-- The group stage writes groups whose rows are all matched at once. -/
theorem groupStage_autoGroups :
    (o.groupStage bankCode).wp (fun _ s' => AutoGroups s s') (fun _ _ => True) s := by
  unfold Orchestrator.groupStage
  split
  · rename_i rules _
    refine wp_bind.mpr ((crossCurrencyStage_autoGroups rules).mono ?_ fun _ _ h => h)
    intro cross s₁ h₁
    refine wp_bind.mpr (wp_pools.mpr (wp_bind.mpr ?_))
    have hsource : ∀ source, ∀ t ∈ s₁.view.findUnmatched bankCode source o.range,
        t.source = source := fun source t ht =>
      (Db.available_iff.mp (Db.mem_findUnmatched.mp ht).2).2.1
    refine ((groupRun_onPools (hsource .internal) (hsource .external)).autoGroups
      fun _ hm _ => hm).mono ?_ fun _ _ _ => trivial
    exact fun _ s₂ h₂ => h₁.trans h₂
  · exact wp_pure.mpr (AutoGroups.refl s)

theorem fuzzyStage_autoGroups :
    (o.fuzzyStage (s.view.findUnmatched bankCode .internal o.range)
        (s.view.findUnmatched bankCode .external o.range)).wp (fun _ s' => AutoGroups s s')
      (fun _ _ => True) s := by
  unfold Orchestrator.fuzzyStage
  split
  · exact wp_pure.mpr (AutoGroups.refl s)
  · exact fuzzyRun_onPools.autoGroups fun _ => autoGroup_of_none

theorem ruleStage_autoGroups :
    (o.ruleStage bankCode).wp (fun _ s' => AutoGroups s s') (fun _ _ => True) s := by
  unfold Orchestrator.ruleStage
  split
  · refine wp_bind.mpr (wp_pools.mpr (wp_bind.mpr ?_))
    exact ruleRun_onPools.autoGroups fun _ => autoGroup_of_none
  · exact wp_pure.mpr (AutoGroups.refl s)

/-- What a level accounts for is sound. -/
theorem Sound.accounted {s' : Session} {range : DateRange} {k : Nat} (h : Sound s.supply s.view)
    (hacc : Accounted s.view s.supply bankCode range k s') (hgroups : AutoGroups s s') :
    Sound s'.supply s'.view where
  ledger := hacc.ledger
  groups := by
    obtain ⟨new, hadv, -, hgrouped, -⟩ := hacc.written
    obtain ⟨new', hadv', hnew⟩ := hgroups
    obtain rfl : new = new' := List.append_cancel_left (hadv.results.symm.trans hadv'.results)
    exact h.groups.record hacc.since hadv.results hgrouped.range hnew

/-- Every level keeps the tables sound. -/
theorem level_sound (l : Level) : (l.program o bankCode).Keeps Sound where
  work := (levelProgram_work l).weaken fun _ _ => trivial
  kept s hs := by
    have hstart : Accounted s.view s.supply bankCode o.range 0 s := Accounted.start hs.ledger
    cases l with
    | setBased =>
      refine wp_bind.mpr ((hstart.setBasedStage.and (setBasedStage_autoGroups hs.ledger)).mono ?_
        fun _ _ _ => trivial)
      exact fun _ s' h => hs.accounted h.1 h.2
    | exact =>
      refine wp_bind.mpr ((hstart.exactStage.and exactStage_autoGroups).mono ?_
        fun _ _ _ => trivial)
      exact fun _ s' h => hs.accounted h.1 h.2
    | crossCurrency rules =>
      refine wp_bind.mpr ((hstart.crossCurrencyStage.and (crossCurrencyStage_autoGroups rules)).mono
        ?_ fun _ _ _ => trivial)
      exact fun _ s' h => hs.accounted h.1 h.2
    | group =>
      refine wp_bind.mpr ((hstart.groupStage.and groupStage_autoGroups).mono ?_
        fun _ _ _ => trivial)
      exact fun _ s' h => hs.accounted h.1 h.2
    | fuzzy =>
      refine wp_bind.mpr (wp_pools.mpr (wp_bind.mpr
        ((hstart.fuzzyStage.and fuzzyStage_autoGroups).mono ?_ fun _ _ _ => trivial)))
      exact fun _ s' h => hs.accounted h.1 h.2
    | rule =>
      refine wp_bind.mpr ((hstart.ruleStage.and ruleStage_autoGroups).mono ?_
        fun _ _ _ => trivial)
      exact fun _ s' h => hs.accounted h.1 h.2

end

/-! ## People -/

/-- A row of no group keeps the groups agreed, and so do claims, statuses and entries. -/
theorem groups_level {n : Nat} {w : RowWrite} {d : Db} (h : LevelWrite (·.matchGroupId = none) w)
    (hd : GroupsAgree n d) : GroupsAgree n (w.apply d) := by
  cases w with
  | insertResult r =>
    have hnone : ∀ r' ∈ [r], r'.matchGroupId = none := fun r' hr' =>
      List.mem_singleton.mp hr' ▸ h
    refine hd.record (Nat.le_refl n) rfl (fun r' hr' g hg => ?_) fun r' hr' =>
      autoGroup_of_none (hnone r' hr')
    exact absurd (hg.symm.trans (hnone r' hr')) (Option.some_ne_none g)
  | transactionStatus t status => exact ⟨hd.known, hd.stands, hd.agree⟩
  | insertClaim c => exact ⟨hd.known, hd.stands, hd.agree⟩
  | claimResult c r => exact ⟨hd.known, hd.stands, hd.agree⟩
  | insertAudit row => exact ⟨hd.known, hd.stands, hd.agree⟩
  | _ => exact h.elim

theorem groups_grow : Grows (S := schema) GroupsAgree := fun _ _ _ hn h => h.mono hn

/-- Whatever writes rows of no group only keeps the tables sound where it keeps the ledger. -/
theorem Sound.of_ledger {α : Type} {p : Prog α} {s : Session} (hs : Sound s.supply s.view)
    (hwork : p.Work (LevelWrite (·.matchGroupId = none)))
    (hledger : p.wp (fun _ s' => Ledger s'.supply s'.view) (fun _ _ => True) s) :
    p.wp (fun _ s' => Sound s'.supply s'.view) (fun _ _ => True) s := by
  have hgroups := (Keeps.of_writes groups_grow (fun _ _ _ => groups_level) hwork).kept s hs.groups
  exact (hledger.and hgroups).mono (fun _ _ h => ⟨h.1, h.2⟩) fun _ _ _ => trivial

/-- A decision that fits, about no row of a group or about whole groups. -/
theorem Sound.decided {n : Nat} {d : Db} {x : Decision} (h : Sound n d) (hx : x.Fits d)
    (hwhole : ∀ r ∈ d.results, r.id ∈ x.ids → r.matchGroupId ≠ none → x.status = .rejected ∧
      ∀ r' ∈ d.results, r.matchGroupId = r'.matchGroupId → r'.id ∈ x.ids) (row : AuditLog) :
    Sound n ((RowWrite.insertAudit row).apply (d.decided x)) :=
  Sound.of_same ⟨h.ledger.decided hx, h.groups.decided hwhole⟩ ⟨rfl, rfl, rfl⟩

/-- No row of a group is under review. -/
theorem GroupsAgree.not_pending {n : Nat} {d : Db} (h : GroupsAgree n d) {r : MatchResult}
    (hr : r ∈ d.results) (hne : r.matchGroupId ≠ none) : r.status ≠ .pendingReview := by
  rcases h.stands r hr hne with hs | hs
  · rw [hs]
    decide
  · rw [hs]
    decide

/-- Confirming a match keeps the tables sound: it is a decision about a row of no group. -/
theorem confirmMatch_sound (logger : AuditLogger) (id : Id) (reviewer : String)
    (note : Option String) (automated : Bool) (now : Instant) :
    (confirmMatch logger id reviewer note automated now).Keeps Sound where
  work := (confirmMatch_work _ _ _ _ _ _).weaken fun _ _ => trivial
  kept s hs := by
    refine (confirmMatch_spec id reviewer note automated now hs.ledger).mono ?_ fun _ _ _ => trivial
    rintro _ s' ⟨hsupply, x, row, hfits, hstatus, -, hview⟩
    rw [hview]
    refine sound_grows _ _ _ hsupply (hs.decided hfits (fun r hr hin hne => ?_) row)
    exact absurd (hfits.pending hstatus r hr hin) (hs.groups.not_pending hr hne)

theorem rejectMatch_sound (logger : AuditLogger) (id : Id) (reviewer reason : String)
    (now : Instant) : (rejectMatch logger id reviewer reason now).Keeps Sound where
  work := (rejectMatch_work _ _ _ _ _).weaken fun _ _ => trivial
  kept s hs := by
    refine (rejectMatch_spec id reviewer reason now hs.ledger).mono ?_ fun _ _ _ => trivial
    rintro _ s' ⟨hsupply, x, row, hfits, -, hids, hpending, hview⟩
    rw [hview]
    refine sound_grows _ _ _ hsupply (hs.decided hfits (fun r hr hin hne => ?_) row)
    rw [hids] at hin
    exact absurd (hpending r hr (List.mem_singleton.mp hin)) (hs.groups.not_pending hr hne)

/-- A match by hand is a new row of no group. -/
theorem createMatch_sound (logger : AuditLogger) (internalId externalId : Id) (user note : String)
    (now : Instant) : (createMatch logger internalId externalId user note now).Keeps Sound where
  work := (createMatch_work _ _ _ _ _ _).weaken fun _ _ => trivial
  kept _ hs := hs.of_ledger ((createMatch_work _ _ _ _ _ _).weaken (LevelWrite.weaken fun _ h => h.1))
    (createMatch_ledger _ _ _ _ _ _ hs.ledger)

/-- Undoing a match is a decision about all rows of its group. -/
theorem Sound.undoing {n : Nat} {d : Db} {first : MatchResult} (h : Sound n d)
    (hfirst : first ∈ d.results) (hall : ∀ r ∈ d.matchRows first, r.Settled) (user : String)
    (row : AuditLog) :
    Sound n ((RowWrite.insertAudit row).apply (d.decided (d.undoing first user))) := by
  refine h.decided (h.ledger.undoing_fits hfirst hall user) (fun r hr hin hne => ⟨rfl, ?_⟩) row
  obtain ⟨r₀, hr₀, hid⟩ := List.mem_map.mp hin
  obtain ⟨hmem₀, hsame⟩ := (Db.mem_matchRows hfirst).mp hr₀
  obtain rfl := h.ledger.result_eq hmem₀ hr hid
  intro r' hr' hgroup
  have hsame' : r'.SameMatch r₀ := Or.inr ⟨hgroup ▸ hne, hgroup.symm⟩
  exact List.mem_map_of_mem ((Db.mem_matchRows hfirst).mpr ⟨hr', hsame'.trans hsame⟩)

/-- Undoing a match concerns the rows of its group together. -/
theorem unmatch_sound (logger : AuditLogger) (id : Id) (user reason : String) (now : Instant) :
    (unmatch logger id user reason now).Keeps Sound where
  work := (unmatch_work _ _ _ _ _).weaken fun _ _ => trivial
  kept s hs := by
    refine (unmatch_spec logger id user reason now s).mono ?_ fun _ _ _ => trivial
    rintro _ s' ⟨first, hfirst, hall, -, hsupply, row, hview⟩
    rw [hview]
    exact sound_grows _ _ _ hsupply (hs.undoing (Db.mem_of_result? hfirst).1 hall user row)

/-! ## Exceptions -/

/-- New exceptions leave the matches alone. -/
theorem ofCreation_leavesMatches {w : RowWrite} (h : w.OfCreation) : w.LeavesMatches := by
  cases w <;> first
    | exact h.elim
    | trivial

theorem ofHandling_leavesMatches {w : RowWrite} (h : w.OfHandling) : w.LeavesMatches := by
  cases w <;> first
    | exact h.elim
    | trivial

theorem ofIntake_leavesMatches {w : RowWrite} (h : w.OfIntake) : w.LeavesMatches := by
  cases w <;> first
    | exact h.elim
    | trivial

/-- A classification raises exceptions and nothing else. -/
theorem classifyWith_work (svc : ExceptionClassifier)
    (candidates : Db → Except ReconError (List Candidate)) (runId : Id) (now : Instant) :
    (svc.classifyWith candidates runId now).Work RowWrite.OfCreation :=
  Work.bind work_tables fun _ => Work.bind (work_ofExcept _) fun _ => svc.persist_ofCreation _ _ _ _

theorem classifyUnmatched_work (svc : ExceptionClassifier) (bankCode : String) (runId : Id)
    (now : Instant) (asOfDate : Option Date) (staleAfterDays : Option Int) (range : DateRange) :
    (svc.classifyUnmatched bankCode runId now asOfDate staleAfterDays range).Work
      RowWrite.OfCreation :=
  Work.bind (work_require _ _) fun _ => Work.bind work_tables fun _ =>
    Work.bind (work_ofExcept _) fun _ => Work.bind (work_findUnmatched _ _ _) fun _ =>
    Work.bind (work_findUnmatched _ _ _) fun _ => Work.bind work_tables fun _ =>
    Work.bind (work_ofExcept _) fun _ => svc.persist_ofCreation _ _ _ _

theorem classifyRun_work (svc : ExceptionClassifier) (bankCode : String) (runId : Id)
    (now : Instant) (asOfDate : Option Date) (staleAfterDays : Option Int) (range : DateRange) :
    (svc.classifyRun bankCode runId now asOfDate staleAfterDays range).Work RowWrite.OfCreation :=
  Work.bind (classifyUnmatched_work _ _ _ _ _ _ _) fun _ =>
    Work.bind (classifyWith_work _ _ _ _) fun _ => Work.bind (classifyWith_work _ _ _ _) fun _ =>
    Work.bind (classifyWith_work _ _ _ _) fun _ => work_pure _

theorem classifyIngestionFile_work (svc : ExceptionClassifier) (file : Id) (now : Instant) :
    (svc.classifyIngestionFile file now).Work RowWrite.OfCreation := by
  refine Work.bind work_tables fun d => ?_
  split
  · exact work_fail _
  · exact svc.persist_ofCreation _ _ _ _

/-! ## Auto-resolution -/

section

variable {s : Session}

/-- A row that cannot be read is an error for a person. -/
theorem readTransaction_spec (id : Id) (s : Session) :
    (readTransaction id).wp (fun t s' => s' = s ∧ t ∈ s.view.transactions ∧ t.id = id)
      (fun e s' => s' = s ∧ e.leavesToPerson = true) s := by
  unfold readTransaction
  simp only [bind_eq, wp_bind, wp_tablesMarking]
  split
  · rename_i t ht
    exact ⟨rfl, List.mem_of_find?_eq_some ht, by simpa using List.find?_some ht⟩
  · exact ⟨rfl, rfl⟩

/-- A record that is missing is a `KeyError`. -/
theorem wp_record {α : Type} {key : String} {a : Option α} {Q : α → Session → Prop}
    {E : ReconError → Session → Prop} :
    (record key a).wp Q E s ↔ (∀ x, a = some x → Q x s) ∧ (a = none → E (.keyError key) s) := by
  cases a with
  | none => simp [record, wp_fail]
  | some x => simp [record, wp_pure]

/-- Voiding looks at the claims of the row first, and keeps the tables sound. -/
theorem voidDuplicate_sound (records : AffectedRecords) : (voidDuplicate records).Keeps Sound where
  work := Work.bind (record_work _ _) fun _ => Work.bind (readTransaction_work _) fun _ =>
    Work.bind (record_work _ _) fun _ => Work.bind work_tables fun _ =>
    Work.bind (work_require _ _) fun _ => Work.bind (work_lockRow _) fun _ => work_put.mpr trivial
  kept s hs := by
    unfold voidDuplicate
    rw [bind_eq, wp_bind, wp_record]
    refine ⟨fun copyId _ => ?_, fun _ => trivial⟩
    rw [bind_eq, wp_bind]
    refine (readTransaction_spec copyId s).mono ?_ fun _ _ _ => trivial
    rintro copy s' ⟨rfl, hcopy, -⟩
    rw [bind_eq, wp_bind, wp_record]
    refine ⟨fun original _ => ?_, fun _ => trivial⟩
    simp only [bind_eq, wp_bind, wp_tables, wp_require, wp_lockRow, wp_put]
    split
    · rename_i hfree
      simp only [Bool.and_eq_true, decide_eq_true_eq, Bool.not_eq_true'] at hfree
      rw [Store.Session.view_write]
      exact ⟨hs.ledger.void hcopy hfree.1 hfree.2, ⟨hs.groups.known, hs.groups.stands, hs.groups.agree⟩⟩
    · trivial

theorem settleMatched_sound (logger : AuditLogger) (result : Id) (ruleId : String) (now : Instant) :
    (settleMatched logger result ruleId now).Keeps Sound := by
  have hconfirm := confirmMatch_sound logger result autoResolver (some ruleId) true now
  constructor
  · exact (settleMatched_work logger result ruleId now).weaken fun _ _ => trivial
  · intro s hs
    unfold settleMatched
    rw [bind_eq, wp_bind, wp_tables]
    split
    · trivial
    · split
      · exact wp_bind.mpr (hconfirm.kept s hs)
      · exact hs
      · exact hs
      · trivial

/-- A pair that the auto-resolver matches is written as a level writes it. -/
theorem settleLeftover_level (internal external : NormalisedTransaction) (ruleId : String) :
    (settleLeftover internal external ruleId).Work (LevelWrite (·.matchGroupId = none)) :=
  settleLeftover_work _ _ _ (fun _ => trivial) (fun _ _ => trivial) (fun _ => rfl) fun _ => rfl

/-- A match of two transactions that are there. -/
theorem settleLeftover_ledger {internal external : NormalisedTransaction} (ruleId : String)
    (h : Ledger s.supply s.view) (hi : internal ∈ s.view.transactions)
    (he : external ∈ s.view.transactions) :
    (settleLeftover internal external ruleId).wp (fun _ s' => Ledger s'.supply s'.view)
      (fun _ _ => True) s := by
  unfold settleLeftover
  simp only [bind_eq, wp_bind, wp_require, wp_tablesMarking]
  split
  swap
  · trivial
  rename_i hfree
  split
  swap
  · trivial
  simp only [Bool.and_eq_true, decide_eq_true_eq] at hfree
  have hpool : Workable [internal.id, external.id] [] s.supply s.view := by
    refine ⟨(Db.setStatus_no_ids _ _).symm ▸ h, fun t ht => ?_⟩
    simp only [List.mem_cons, List.not_mem_nil, or_false] at ht
    rcases ht with rfl | rfl
    · exact ⟨internal, hi, rfl, by rw [hfree.1]; decide⟩
    · exact ⟨external, he, rfl, by rw [hfree.2]; decide⟩
  refine (recordPair_workable (m := autoResolveColumns ruleId internal external) hpool
    (by simp [autoResolveColumns]) (by simp [autoResolveColumns])
    (by simp [autoResolveColumns])).mono ?_ fun _ _ _ => trivial
  rintro (_ | id) s₁ hs₁
  · trivial
  · exact (markMatched_workable hs₁).mono (fun _ _ h => h.of_nil) fun _ _ _ => trivial

/-- Settling a pair is a decision about its match, or a new one. -/
theorem settlePair_sound (logger : AuditLogger) (records : AffectedRecords)
    {internal external : NormalisedTransaction} (ruleId : String) (now : Instant)
    (hs : Sound s.supply s.view) (hi : internal ∈ s.view.transactions)
    (he : external ∈ s.view.transactions) :
    (settlePair logger records internal external ruleId now).wp
      (fun _ s' => Sound s'.supply s'.view) (fun _ _ => True) s := by
  unfold settlePair
  split
  · exact (settleMatched_sound logger _ ruleId now).kept s hs
  · exact hs.of_ledger (settleLeftover_level _ _ _) (settleLeftover_ledger ruleId hs.ledger hi he)

theorem postFeeAdjustment_work {W : RowWrite → Prop} (hW : ∀ a, W (.insertAdjustment a))
    (e : ReconException) (internal external : NormalisedTransaction) :
    (postFeeAdjustment e internal external).Work W :=
  Work.bind (work_require _ _) fun _ => Work.bind (work_lockRow _) fun _ =>
    Work.bind work_tables fun _ => Work.bind (work_require _ _) fun _ => work_put.mpr (hW _)

/-- Every action of the auto-resolver keeps the tables sound. -/
theorem act_sound (logger : AuditLogger) (e : ReconException) (now : Instant) :
    (act logger e now).Keeps Sound where
  work := (act_work _ _ _).weaken fun _ _ => trivial
  kept s hs := by
    unfold act
    split
    · exact (voidDuplicate_sound _).kept s hs
    · exact hs
    · exact hs
    split
    · trivial
    rename_i category _ _ _ ruleId _
    rw [bind_eq, wp_bind, wp_record]
    refine ⟨fun i _ => ?_, fun _ => trivial⟩
    rw [bind_eq, wp_bind]
    refine (readTransaction_spec i s).mono ?_ fun _ _ _ => trivial
    rintro internal s₁ ⟨rfl, hi, -⟩
    rw [bind_eq, wp_bind, wp_record]
    refine ⟨fun x _ => ?_, fun _ => trivial⟩
    rw [bind_eq, wp_bind]
    refine (readTransaction_spec x s₁).mono ?_ fun _ _ _ => trivial
    rintro external s₂ ⟨rfl, he, -⟩
    rw [bind_eq, wp_bind]
    refine (settlePair_sound logger _ ruleId now hs hi he).mono ?_ fun _ _ _ => trivial
    intro _ s₃ hs₃
    rw [wp_ite]
    split
    · exact (leavesMatches_sound (postFeeAdjustment_work (fun _ => trivial) _ _ _)).kept s₃ hs₃
    · exact hs₃

end

theorem autoResolverRun_sound (logger : AuditLogger) (bankCode : String) (runId : Option Id)
    (now : Instant) : (autoResolverRun logger bankCode runId now).Keeps Sound :=
  autoResolverRun_keeps (J := fun _ => Sound) (fun _ => sound_grows)
    (fun _ _ _ _ hw hd => hd.of_same ((ofHandling_leavesMatches hw).same _)) (fun _ _ hd => hd)
    (fun _ _ _ hd => hd) fun _ e _ => act_sound logger e now

/-! ## Every history -/

/-- A row that arrives is UNMATCHED and unclaimed. -/
theorem insertTransaction_sound {file n : Nat} {d : Db} {canonical : CanonicalTransaction} {raw : Id}
    (h : Sound n d) : Sound (n + 1)
      ((RowWrite.insertTransaction (normalisedTransaction file canonical raw n)).apply d) where
  ledger := h.ledger.insertTransaction (Nat.le_refl n) (Nat.le_succ n) (Nat.lt_succ_self n) rfl
  groups := by
    obtain ⟨known, stands, agree⟩ := h.groups.mono (Nat.le_succ n)
    exact ⟨known, stands, agree⟩

theorem process_sound (p : IngestionPipeline) (up : Upload) (now : Instant) :
    (p.process up now).Keeps Sound := by
  apply process_keeps sound_grows
  · exact fun n w d hw hd => hd.of_same ((ofIntake_leavesMatches hw).same d)
  · exact fun file n d canonical raw hd => insertTransaction_sound hd
  · exact fun file => leavesMatches_sound
      ((classifyIngestionFile_work _ _ _).weaken fun _ => ofCreation_leavesMatches)

/-- Every operation keeps the tables sound. -/
theorem Operation.sound (op : Operation) : op.program.Keeps Sound := by
  cases op with
  | ingest p up now => exact (process_sound p up now).bind fun _ => keeps_pure _
  | level o bankCode l => exact level_sound l
  | classify svc bankCode runId now asOfDate staleAfterDays range =>
    exact (leavesMatches_sound ((classifyRun_work _ _ _ _ _ _ _).weaken fun _ =>
      ofCreation_leavesMatches)).bind fun _ => keeps_pure _
  | autoResolve logger bankCode runId now =>
    exact (autoResolverRun_sound _ _ _ _).bind fun _ => keeps_pure _
  | escalate logger bankCode runId now =>
    refine (escalate_keeps sound_grows ?_ (autoResolverRun_sound _ _ _ _)).bind fun _ => keeps_pure _
    exact fun _ _ d hw hd => hd.of_same ((ofHandling_leavesMatches (ofTriage_ofHandling hw)).same d)
  | handle logger id principal now h =>
    exact leavesMatches_sound ((handling_work _ _ _ _ h).weaken fun _ => ofHandling_leavesMatches)
  | confirm logger id reviewer note now =>
    exact (confirmMatch_sound _ _ _ _ _ _).bind fun _ => keeps_pure _
  | reject logger id reviewer reason now =>
    exact (rejectMatch_sound _ _ _ _ _).bind fun _ => keeps_pure _
  | create logger internalId externalId user note now =>
    exact (createMatch_sound _ _ _ _ _ _).bind fun _ => keeps_pure _
  | unmatch logger id user reason now =>
    exact (unmatch_sound _ _ _ _ _).bind fun _ => keeps_pure _

/-- Nothing has happened to the transactions yet: each is UNMATCHED, under an identifier of its
own, and there are no results and no claims. -/
structure Untouched (c : Committed schema) : Prop where
  ids : (c.db.transactions.map (·.id)).Nodup
  below : ∀ t ∈ c.db.transactions, t.id < c.supply
  unmatched : ∀ t ∈ c.db.transactions, t.matchStatus = .unmatched
  results : c.db.results = []
  claims : c.db.claims = []

theorem Untouched.sound {c : Committed schema} (h : Untouched c) : Sound c.supply c.db where
  ledger := Ledger.ingested h.ids h.below h.unmatched h.results h.claims
  groups := by
    have hnone : ∀ r, r ∉ c.db.results := fun r => by simp [h.results]
    exact ⟨fun r hr => absurd hr (hnone r), fun r hr => absurd hr (hnone r),
      fun r hr => absurd hr (hnone r)⟩

/-- **Sound tables.** The tables are sound after every history. -/
theorem operate_sound {c : Committed schema} (h : Untouched c) (ops : List Operation) :
    Sound (operate c ops).supply (operate c ops).db :=
  Keeps.history sound_grows Operation.sound h.sound ops

end Recon
