import ReconEngine.Matching.Manual
import ReconEngine.Matching.Steadiness
import ReconEngine.Store.Conduct

/-!
# The locks of a run and of people's requests

What people do to matches (`Judgement`), and what each session on the matching tables is about: a
request names transactions or a result, and reading shows it the rows that belong to them; a run is
about the free rows of its bank and range that its pools have shown it. Claim keys go with their
transactions.

**The law** (`execute_takes`, `Judgement.takes`): every session locks only what it is about, and the
matching chain. A run asks in no order: a level claims first, locks its rows for their statuses
later, and goes on to the next level with all of it, the chain included where the level has written
to it. People take the chain last. A decision about a result holds the row of the result before it
asks for anything else; a manual match takes the row of its internal side, then that of its external
side, then their keys.

**What it does not establish.** No order is said of the rows that a decision finds: the statements
that lock them name no order, so a database may lock them in any.
-/

set_option autoImplicit false

namespace Recon

open Store
open Store.Prog hiding pure bind

/-- What people do to matches. -/
inductive Judgement where
  | create (logger : AuditLogger) (internalId externalId : Id) (user note : String) (now : Instant)
  | unmatch (logger : AuditLogger) (id : Id) (user reason : String) (now : Instant)
  | confirm (logger : AuditLogger) (id : Id) (reviewer : String) (note : Option String)
      (now : Instant)
  | reject (logger : AuditLogger) (id : Id) (reviewer reason : String) (now : Instant)

/-- Each in one transaction. -/
def Judgement.client : Judgement → Client schema
  | .create logger internalId externalId user note now =>
    { prog := do let _ ← createMatch logger internalId externalId user note now; commitNow }
  | .unmatch logger id user reason now =>
    { prog := do let _ ← Recon.unmatch logger id user reason now; commitNow }
  | .confirm logger id reviewer note now =>
    { prog := do let _ ← confirmMatch logger id reviewer note false now; commitNow }
  | .reject logger id reviewer reason now =>
    { prog := do let _ ← rejectMatch logger id reviewer reason now; commitNow }

@[simp] theorem takes_tables {C : Conduct schema} {Q : Db → List RowLock → List RowLock → Prop}
    {notes held : List RowLock} :
    tables.Takes C Q notes held ↔ ∀ d, Q d (C.found notes d ++ notes) held := Iff.rfl

/-- The lock of the matching chain. -/
abbrev chainLock : RowLock := .chain matchingChain

theorem transaction_ne_chainLock (t : Id) : RowLock.transaction t ≠ chainLock := fun h => by cases h

theorem claimKey_ne_chainLock (t : Id) : RowLock.claimKey t ≠ chainLock := fun h => by cases h

theorem result_ne_chainLock (r : Id) : RowLock.result r ≠ chainLock := fun h => by cases h

/-! ## A run -/

/-- The free rows of a bank and a range, with their claim keys. -/
def freeRows (bankCode : String) (range : DateRange) (d : Db) : List RowLock :=
  (d.transactions.filter fun t =>
    d.available bankCode .internal range t || d.available bankCode .external range t).flatMap
      fun t => [.transaction t.id, .claimKey t.id]

/-- All that is held or asked for is the matching chain or among `rows`. -/
def OfRows (rows held : List RowLock) (l : RowLock) : Prop :=
  ∀ x ∈ l :: held, x = chainLock ∨ x ∈ rows

/-- A run finds free rows, and asks for what it has found and for the chain, in any order. -/
def runConduct (bankCode : String) (range : DateRange) : Conduct schema where
  found _ d := freeRows bankCode range d
  asks notes held l := OfRows notes held l

/-- The chain, or one of the rows that are noted. -/
def Noted (notes : List RowLock) (l : RowLock) : Prop := l = chainLock ∨ l ∈ notes

section

variable {bankCode : String} {range : DateRange} {notes notes' held : List RowLock}

theorem Noted.mono (h : notes ⊆ notes') {l : RowLock} (hl : Noted notes l) : Noted notes' l :=
  hl.imp_right fun hmem => h hmem

/-- All that is held is the chain or noted. -/
def HeldNoted (notes held : List RowLock) : Prop := ∀ l ∈ held, Noted notes l

theorem HeldNoted.mono (h : notes ⊆ notes') (hheld : HeldNoted notes held) :
    HeldNoted notes' held := fun l hl => (hheld l hl).mono h

/-- A pool that has been read is among the rows that are noted. -/
theorem locksRows_of_free {d : Db} {rows : List NormalisedTransaction}
    (h : ∀ t ∈ rows, t ∈ d.transactions ∧ (d.available bankCode .internal range t = true ∨
      d.available bankCode .external range t = true))
    (hsub : freeRows bankCode range d ⊆ notes) : LocksRows (Noted notes) (ids rows) := by
  have hmem : ∀ t ∈ ids rows, RowLock.transaction t ∈ notes ∧ RowLock.claimKey t ∈ notes := by
    intro id hid
    obtain ⟨t, ht, rfl⟩ := List.mem_map.mp hid
    obtain ⟨hin, havailable⟩ := h t ht
    have hfree : t ∈ d.transactions.filter fun t =>
        d.available bankCode .internal range t || d.available bankCode .external range t :=
      List.mem_filter.mpr ⟨hin, (Bool.or_eq_true _ _).mpr havailable⟩
    exact ⟨hsub (List.mem_flatMap.mpr ⟨t, hfree, List.mem_cons_self⟩),
      hsub (List.mem_flatMap.mpr ⟨t, hfree, List.mem_cons_of_mem _ List.mem_cons_self⟩)⟩
  exact ⟨fun t ht => Or.inr (hmem t ht).1, fun t ht => Or.inr (hmem t ht).2, Or.inl rfl⟩

/-- The pools that have been read: of the two sources, and noted. -/
structure PoolsNoted (notes : List RowLock)
    (found : List NormalisedTransaction × List NormalisedTransaction) : Prop where
  internals : ∀ t ∈ found.1, t.source = .internal
  externals : ∀ t ∈ found.2, t.source = .external
  rows : LocksRows (Noted notes) (ids found.1 ++ ids found.2)

/-- Reading the pools adds their rows to what the run is about. -/
theorem pools_takes (hheld : HeldNoted notes held) :
    (pools bankCode range).Takes (runConduct bankCode range)
      (fun found notes' held' => HeldNoted notes' held' ∧ PoolsNoted notes' found)
      notes held := by
  intro d d'
  constructor
  · exact hheld.mono fun x hx => List.mem_append_right _ (List.mem_append_right _ hx)
  constructor
  · exact fun t ht => (Db.available_iff.mp (Db.mem_findUnmatched.mp ht).2).2.1
  · exact fun t ht => (Db.available_iff.mp (Db.mem_findUnmatched.mp ht).2).2.1
  · have hfirst : freeRows bankCode range d ⊆
        freeRows bankCode range d' ++ (freeRows bankCode range d ++ notes) :=
      fun l hl => List.mem_append_right _ (List.mem_append_left _ hl)
    have hinternals := locksRows_of_free (fun t ht =>
      ⟨(Db.mem_findUnmatched.mp ht).1, Or.inl (Db.mem_findUnmatched.mp ht).2⟩) hfirst
    have hsecond : freeRows bankCode range d' ⊆
        freeRows bankCode range d' ++ (freeRows bankCode range d ++ notes) :=
      List.subset_append_left _ _
    have hexternals := locksRows_of_free (fun t ht =>
      ⟨(Db.mem_findUnmatched.mp ht).1, Or.inr (Db.mem_findUnmatched.mp ht).2⟩) hsecond
    refine ⟨fun t ht => ?_, fun t ht => ?_, Or.inl rfl⟩
    · exact (List.mem_append.mp ht).elim (hinternals.transaction t) (hexternals.transaction t)
    · exact (List.mem_append.mp ht).elim (hinternals.claimKey t) (hexternals.claimKey t)

theorem countUnmatched_takes (source : Source) (hheld : HeldNoted notes held) :
    (countUnmatched bankCode source range).Takes (runConduct bankCode range)
      (fun _ notes' held' => HeldNoted notes' held') notes held :=
  fun _ => hheld.mono (List.subset_append_right _ _)

/-- A level that locks what is noted goes on holding only what is noted. -/
theorem level_takes {α : Type} {W : RowWrite → Prop} {p : Prog α} (hp : p.Work W)
    (hs : p.SteadyToEnd (Noted notes)) (hheld : HeldNoted notes held) :
    p.Takes (runConduct bankCode range) (fun _ notes' held' => HeldNoted notes' held')
      notes held := by
  have habove : ∀ notes' held', Above (S := schema) (Noted notes) notes held notes' held' →
      HeldNoted notes' held' := by
    rintro notes' held' ⟨hsub, taken, rfl, htaken⟩ l hl
    obtain hl | hl := List.mem_append.mp hl
    · exact (htaken l hl).mono hsub
    · exact (hheld l hl).mono hsub
  refine (hp.takes hs fun notes' held' h l hl x hx => ?_).mono fun _ _ _ h => habove _ _ h
  obtain rfl | hx := List.mem_cons.mp hx
  · exact hl.mono h.1
  · exact habove _ _ h x hx

/-- The statement locks rows of its own pool. -/
theorem setBasedStage_takes (o : Orchestrator) (hheld : HeldNoted notes held) :
    (o.setBasedStage bankCode).Takes (runConduct bankCode o.range)
      (fun _ notes' held' => HeldNoted notes' held') notes held := by
  unfold Orchestrator.setBasedStage
  split
  · obtain ⟨marks, next, heq, hnext⟩ := setBasedRun_steady o.run bankCode o.range
    have hwork := (setBasedRun_respects o.run bankCode o.range).work
    rw [heq] at hwork ⊢
    intro d
    refine level_takes (hwork d) (hnext d _ (locksRows_of_free (fun t ht => ?_)
      (List.subset_append_left _ _))) (hheld.mono (List.subset_append_right _ _))
    obtain ⟨hin, hbank, hstatus, -, hrange, hclaimed⟩ := mem_setBasedPool.mp ht
    refine ⟨hin, ?_⟩
    cases hsource : t.source with
    | internal => exact Or.inl (Db.available_iff.mpr ⟨hbank, hsource, hstatus, hclaimed, hrange⟩)
    | external => exact Or.inr (Db.available_iff.mpr ⟨hbank, hsource, hstatus, hclaimed, hrange⟩)
  · exact hheld

/-- The exact stage locks rows of its pools. -/
theorem exactStage_takes (o : Orchestrator) (hheld : HeldNoted notes held) :
    (o.exactStage bankCode).Takes (runConduct bankCode o.range)
      (fun _ notes' held' => HeldNoted notes' held') notes held := by
  refine takes_bind.mpr ((pools_takes hheld).mono fun found notes' held' h => ?_)
  exact level_takes (exactRun_onPools _ _ _).work (exactRun_steady h.2.rows _) h.1

theorem crossCurrencyStage_takes (o : Orchestrator) (rules : RuleStageConfig)
    (hheld : HeldNoted notes held) :
    (o.crossCurrencyStage bankCode rules).Takes (runConduct bankCode o.range)
      (fun _ notes' held' => HeldNoted notes' held') notes held := by
  unfold Orchestrator.crossCurrencyStage
  split
  · refine takes_bind.mpr ((pools_takes hheld).mono fun found notes' held' h => ?_)
    exact takes_bind.mpr
      (level_takes crossCurrencyRun_onPools.work (crossCurrencyRun_steady h.2.rows _) h.1)
  · exact hheld

theorem groupStage_takes (o : Orchestrator) (hheld : HeldNoted notes held) :
    (o.groupStage bankCode).Takes (runConduct bankCode o.range)
      (fun _ notes' held' => HeldNoted notes' held') notes held := by
  unfold Orchestrator.groupStage
  split
  · refine takes_bind.mpr ((crossCurrencyStage_takes o _ hheld).mono fun _ _ _ h₁ => ?_)
    refine takes_bind.mpr ((pools_takes h₁).mono fun found _ _ h₂ => ?_)
    exact takes_bind.mpr (level_takes (groupRun_onPools h₂.2.internals h₂.2.externals).work
      (groupRun_steady _ h₂.2.rows) h₂.1)
  · exact hheld

theorem ruleStage_takes (o : Orchestrator) (hheld : HeldNoted notes held) :
    (o.ruleStage bankCode).Takes (runConduct bankCode o.range)
      (fun _ notes' held' => HeldNoted notes' held') notes held := by
  unfold Orchestrator.ruleStage
  split
  · refine takes_bind.mpr ((pools_takes hheld).mono fun found notes' held' h => ?_)
    exact takes_bind.mpr (level_takes ruleRun_onPools.work (ruleRun_steady h.2.rows _) h.1)
  · exact hheld

/-- The fuzzy stage works on pools that have been read before it. -/
theorem fuzzyStage_takes (o : Orchestrator)
    {found : List NormalisedTransaction × List NormalisedTransaction}
    (hpools : PoolsNoted notes found) (hheld : HeldNoted notes held) :
    (o.fuzzyStage found.1 found.2).Takes (runConduct bankCode o.range)
      (fun _ notes' held' => HeldNoted notes' held') notes held := by
  unfold Orchestrator.fuzzyStage
  split
  · exact hheld
  · exact level_takes fuzzyRun_onPools.work (fuzzyRun_steady hpools.rows _) hheld

/-- **A run locks what it has found**, and the matching chain. -/
theorem execute_takes (o : Orchestrator) (bankCode : String) :
    (o.execute bankCode).Takes (runConduct bankCode o.range) (fun _ _ _ => True) [] [] := by
  have hnone : HeldNoted [] [] := fun l hl => absurd hl List.not_mem_nil
  refine takes_bind.mpr ((countUnmatched_takes .internal hnone).mono fun _ _ _ h₁ => ?_)
  refine takes_bind.mpr ((countUnmatched_takes .external h₁).mono fun _ _ _ h₂ => ?_)
  refine takes_bind.mpr ((setBasedStage_takes o h₂).mono fun _ _ _ h₃ => ?_)
  refine takes_bind.mpr ((exactStage_takes o h₃).mono fun _ _ _ h₄ => ?_)
  refine takes_bind.mpr ((groupStage_takes o h₄).mono fun _ _ _ h₅ => ?_)
  refine takes_bind.mpr ((pools_takes h₅).mono fun found _ _ h₆ => ?_)
  refine takes_bind.mpr ((fuzzyStage_takes o h₆.2 h₆.1).mono fun _ _ _ h₇ => ?_)
  refine takes_bind.mpr ((ruleStage_takes o h₇).mono fun _ _ _ h₈ => ?_)
  exact takes_bind.mpr ((countUnmatched_takes .external h₈).mono fun _ _ _ _ => trivial)

end

/-! ## People -/

/-- What the session of a request is about: both sides of a manual match and their claim keys; the
result of a decision, and what has been found since. -/
def Judgement.about : Judgement → List RowLock → List RowLock
  | .create _ internalId externalId _ _ _, _ =>
    [.transaction internalId, .transaction externalId, .claimKey internalId, .claimKey externalId]
  | .unmatch _ id _ _ _, notes | .confirm _ id _ _ _, notes | .reject _ id _ _ _, notes =>
    .result id :: notes

/-- The result that a decision is about. -/
def Judgement.resultId : Judgement → Option Id
  | .create .. => none
  | .unmatch _ id _ _ _ | .confirm _ id _ _ _ | .reject _ id _ _ _ => some id

/-- The rows of the match that a result belongs to. -/
def Db.matchOf (d : Db) (id : Id) : List MatchResult :=
  match d.result? id with
  | none => []
  | some first => d.matchRows first

/-- What a read shows the session of a request: to confirm, both sides of its result; to reject, the
keys of its claims; to undo, the rows of the match, their sides, and the keys of the claims of rows
that are noted already. -/
def Judgement.found : Judgement → List RowLock → Db → List RowLock
  | .create .., _, _ => []
  | .confirm _ id _ _ _, _, d => (d.result? id).toList.flatMap fun r =>
    [.transaction r.internalTransactionId, .transaction r.externalTransactionId]
  | .reject _ id _ _ _, _, d => (d.activeClaims id).map fun c => .claimKey c.normalisedTransactionId
  | .unmatch _ id _ _ _, notes, d =>
    (d.matchOf id).map (fun r => .result r.id) ++ (matchSides (d.matchOf id)).map .transaction ++
      (d.claims.filter fun c => c.status = .active ∧
        ∃ r ∈ notes, c.matchResultId.map RowLock.result = some r).map
          fun c => .claimKey c.normalisedTransactionId

/-- The order of a request: a decision holds its result before it asks for more; a manual match
holds the row of its internal side when it asks for that of its external side, and both when it asks
for their keys and the chain. -/
def Judgement.InTurn : Judgement → List RowLock → RowLock → Prop
  | .create _ internalId externalId _ _ _, held, l =>
    held = [] ∨ (held = [.transaction internalId] ∧ l = .transaction externalId) ∨ l ∈ held ∨
      (.transaction internalId ∈ held ∧ .transaction externalId ∈ held ∧
        (l = .claimKey internalId ∨ l = .claimKey externalId ∨ l = chainLock))
  | .unmatch _ id _ _ _, held, _ | .confirm _ id _ _ _, held, _ | .reject _ id _ _ _, held, _ =>
    held = [] ∨ .result id ∈ held

/-- A request asks for what it is about, in its order, and for the chain last. -/
def Judgement.conduct (j : Judgement) : Conduct schema where
  found := j.found
  asks notes held l := chainLock ∉ held ∧ OfRows (j.about notes) held l ∧ j.InTurn held l

/-! ## Decisions -/

/-- A decision holds its result, and rows that it names or has found. -/
structure Deciding (id : Id) (notes held : List RowLock) : Prop where
  own : .result id ∈ held
  rows : ∀ l ∈ held, l ≠ chainLock ∧ (l = .result id ∨ l ∈ notes)

section

variable {j : Judgement} {id : Id} {notes held : List RowLock}

/-- What a decision may ask for: its result first, then its rows, then the chain. -/
theorem Judgement.decision_asks (hj : j.resultId = some id) {l : RowLock} :
    j.conduct.asks notes held l ↔ chainLock ∉ held ∧ OfRows (.result id :: notes) held l ∧
      (held = [] ∨ .result id ∈ held) := by
  cases j <;> cases hj <;> exact Iff.rfl

theorem Deciding.asks (h : Deciding id notes held) (hj : j.resultId = some id) {l : RowLock}
    (hl : l = chainLock ∨ l = .result id ∨ l ∈ notes) : j.conduct.asks notes held l := by
  refine (Judgement.decision_asks hj).mpr ⟨fun hmem => (h.rows _ hmem).1 rfl, ?_, Or.inr h.own⟩
  intro x hx
  obtain rfl | hx := List.mem_cons.mp hx
  · exact hl.imp_right List.mem_cons.mpr
  · exact Or.inr (List.mem_cons.mpr (h.rows x hx).2)

/-- What a decision has found stays found. -/
theorem Deciding.mono {notes' : List RowLock} (h : Deciding id notes held) (hsub : notes ⊆ notes') :
    Deciding id notes' held :=
  ⟨h.own, fun l hl => ⟨(h.rows l hl).1, (h.rows l hl).2.imp_right fun hmem => hsub hmem⟩⟩

/-- Work on rows that are found leaves the decision holding such rows only. -/
theorem Deciding.work {α : Type} {W : RowWrite → Prop} {p : Prog α} (h : Deciding id notes held)
    (hj : j.resultId = some id) (hp : p.Work W)
    (hs : p.Steady fun l : RowLock => l ≠ chainLock ∧ l ∈ notes) :
    p.Takes j.conduct (fun _ notes' held' => notes ⊆ notes' ∧ Deciding id notes' held')
      notes held := by
  have habove : ∀ notes' held',
      Above (S := schema) (fun l : RowLock => l ≠ chainLock ∧ l ∈ notes) notes held notes' held' →
      Deciding id notes' held' := by
    rintro notes' held' ⟨hsub, taken, rfl, htaken⟩
    refine ⟨List.mem_append_right _ h.own, fun l hl => ?_⟩
    obtain hl | hl := List.mem_append.mp hl
    · exact ⟨(htaken l hl).1, Or.inr (hsub (htaken l hl).2)⟩
    · exact (h.mono hsub).rows l hl
  refine (hp.takes hs.steadyToEnd fun notes' held' hab l hl => ?_).mono
    fun _ notes' held' hab => ⟨hab.1, habove notes' held' hab⟩
  exact (habove notes' held' hab).asks hj (Or.inr (Or.inr (hab.1 hl.2)))

/-- The entry on the chain is the last thing that is locked. -/
theorem append_takes {C : Conduct schema} (logger : AuditLogger) {e : AuditEvent}
    (h : C.asks notes held (.chain e.chainId)) :
    (logger.append e).Takes C (fun _ _ _ => True) notes held := by
  simp only [AuditLogger.append, bind_eq, takes_bind, takes_require, takes_lockRow, takes_tables,
    takes_newId]
  refine fun _ _ => ⟨h, fun d eventId => ?_⟩
  split
  · trivial
  · trivial

/-- A decision begins with its result. -/
theorem lockResult_takes (hj : j.resultId = some id) :
    (lockRow (.result id) : Prog Unit).Takes j.conduct (fun _ notes' held' => notes' = [] ∧
      Deciding id notes' held') [] [] := by
  refine ⟨(Judgement.decision_asks hj).mpr ⟨List.not_mem_nil, ?_, Or.inl rfl⟩, rfl,
    List.mem_cons_self, fun l hl => ?_⟩
  · exact fun x hx => Or.inr hx
  · rw [List.mem_singleton.mp hl]
    exact ⟨result_ne_chainLock id, Or.inl rfl⟩

/-- A decision takes the row of its result before anything else. -/
theorem lockPending_takes (hj : j.resultId = some id) :
    (lockPending id).Takes j.conduct (fun result notes' held' => Deciding id notes' held' ∧
      ∃ d, d.result? id = some result ∧ j.found [] d ⊆ notes') [] [] := by
  refine takes_bind.mpr ((lockResult_takes hj).mono ?_)
  rintro _ notes' held' ⟨rfl, hdeciding⟩
  simp only [bind_eq, takes_bind, takes_tables]
  intro d
  split
  · trivial
  · rename_i result hresult
    split
    · exact ⟨hdeciding.mono (List.nil_subset _), d, hresult, List.subset_append_left _ _⟩
    · trivial

end

/-- Confirming keeps to the conduct of decisions. -/
theorem confirm_takes (logger : AuditLogger) (id : Id) (reviewer : String) (note : Option String)
    (now : Instant) :
    (confirmMatch logger id reviewer note false now).Takes
      (Judgement.confirm logger id reviewer note now).conduct (fun _ _ _ => True) [] [] := by
  refine takes_bind.mpr ((lockPending_takes rfl).mono ?_)
  rintro result notes held ⟨hdeciding, d, hresult, hfound⟩
  have hsides : ∀ t ∈ [result.internalTransactionId, result.externalTransactionId],
      RowLock.transaction t ∈ notes := by
    intro t ht
    refine hfound (List.mem_flatMap.mpr ⟨result, by rw [hresult]; exact List.mem_cons_self, ?_⟩)
    exact List.mem_map_of_mem (f := RowLock.transaction) ht
  have hreview : (reviewTransactions result).Steady fun l : RowLock => l ≠ chainLock ∧ l ∈ notes :=
    Steady.bind (steady_lockRow.mpr
      ⟨transaction_ne_chainLock _, hsides _ List.mem_cons_self⟩) fun _ =>
      Steady.bind (steady_lockRow.mpr ⟨transaction_ne_chainLock _,
          hsides _ (List.mem_cons_of_mem _ List.mem_cons_self)⟩)
        fun _ => Steady.bind steady_tables fun _ => Steady.bind (steady_require _ _) fun _ =>
        steady_pure _
  have hrows : (reviewTransactions result).Returns fun rows =>
      ∀ t ∈ rows.map (·.id), t ∈ [result.internalTransactionId, result.externalTransactionId] := by
    intro d
    refine (returns_true (require _ _)).bind fun _ _ t ht => ?_
    obtain ⟨row, hrow, rfl⟩ := List.mem_map.mp ht
    exact of_decide_eq_true (List.mem_filter.mp hrow).2
  have hwork : (reviewTransactions result).Work fun _ => False :=
    Work.bind (work_lockRow _) fun _ => Work.bind (work_lockRow _) fun _ =>
      Work.bind work_tables fun _ => Work.bind (work_require _ _) fun _ => work_pure _
  refine takes_bind.mpr (((hdeciding.work rfl hwork hreview).returns hrows).mono ?_)
  rintro transactions notes₁ held₁ ⟨htransactions, hsub, h₁⟩
  simp only [bind_eq, takes_bind, takes_tables, takes_require]
  intro d' _ _
  have h₂ := h₁.mono (List.subset_append_right (Judgement.found
    (.confirm logger id reviewer note now) notes₁ d') notes₁)
  refine (h₂.work rfl (markAll_work (W := fun _ => True) (fun _ => trivial) _)
    (markAll_steady _ fun t ht => ⟨transaction_ne_chainLock t, ?_⟩)).mono ?_
  · exact List.mem_append_right _ (hsub (hsides t (htransactions t ht)))
  · rintro _ notes₃ held₃ ⟨-, h₃⟩
    exact (append_takes logger (h₃.asks rfl (Or.inl rfl))).mono fun _ _ _ _ => trivial

theorem releaseClaims_steady {L : RowLock → Prop} : ∀ cs : List MatchClaim,
    (∀ c ∈ cs, L (.claimKey c.normalisedTransactionId)) → (releaseClaims cs).Steady L
  | [], _ => steady_pure _
  | c :: cs, h => by
    have hkey := h c List.mem_cons_self
    exact Steady.bind (Steady.bind (steady_lockRow.mpr hkey) fun _ => steady_put _) fun _ =>
      releaseClaims_steady cs fun c' hc => h c' (List.mem_cons_of_mem c hc)

theorem reject_takes (logger : AuditLogger) (id : Id) (reviewer reason : String) (now : Instant) :
    (rejectMatch logger id reviewer reason now).Takes
      (Judgement.reject logger id reviewer reason now).conduct (fun _ _ _ => True) [] [] := by
  refine takes_bind.mpr ((lockPending_takes rfl).mono ?_)
  rintro result notes held ⟨hdeciding, -⟩
  simp only [bind_eq, takes_bind, takes_tables]
  intro d
  have hfound : (d.activeClaims id).map (fun c => RowLock.claimKey c.normalisedTransactionId) ⊆
      Judgement.found (.reject logger id reviewer reason now) notes d ++ notes :=
    List.subset_append_left _ _
  have h₁ := hdeciding.mono (List.subset_append_right
    (Judgement.found (.reject logger id reviewer reason now) notes d) notes)
  have hwork := releaseClaims_work (W := fun _ => True) (fun _ => trivial) (d.activeClaims id)
  refine (h₁.work rfl hwork (releaseClaims_steady _ fun c hc =>
    ⟨claimKey_ne_chainLock _, hfound (List.mem_map_of_mem hc)⟩)).mono ?_
  rintro _ notes₂ held₂ ⟨-, h₂⟩
  exact (append_takes logger (h₂.asks rfl (Or.inl rfl))).mono fun _ _ _ _ => trivial

theorem lockResults_steady {L : RowLock → Prop} : ∀ rs : List MatchResult,
    (∀ r ∈ rs, L (.result r.id)) → (lockResults rs).Steady L
  | [], _ => steady_pure _
  | r :: rs, h => Steady.bind (steady_lockRow.mpr (h r List.mem_cons_self)) fun _ =>
      lockResults_steady rs fun r' hr => h r' (List.mem_cons_of_mem r hr)

theorem returnToPool_steady {L : RowLock → Prop} : ∀ ts : List NormalisedTransaction,
    (∀ t ∈ ts, L (.transaction t.id)) → (returnToPool ts).Steady L
  | [], _ => steady_pure _
  | t :: ts, h => by
    have hrow := h t List.mem_cons_self
    exact Steady.bind (Steady.bind (steady_lockRow.mpr hrow) fun _ => steady_put _) fun _ =>
      returnToPool_steady ts fun t' ht => h t' (List.mem_cons_of_mem t ht)

theorem rejectRows_steady {L : RowLock → Prop} (user : String) : ∀ rs, (rejectRows user rs).Steady L
  | [] => steady_pure _
  | _ :: rs => Steady.bind (steady_put _) fun _ => rejectRows_steady user rs

theorem unmatch_takes (logger : AuditLogger) (id : Id) (user reason : String) (now : Instant) :
    (unmatch logger id user reason now).Takes
      (Judgement.unmatch logger id user reason now).conduct (fun _ _ _ => True) [] [] := by
  refine takes_bind.mpr ((lockResult_takes rfl).mono ?_)
  rintro _ _ held ⟨rfl, hdeciding⟩
  simp only [bind_eq, takes_bind, takes_tables]
  intro d
  split
  · trivial
  rename_i first hfirst
  have hmatch : d.matchOf id = d.matchRows first := by rw [Db.matchOf, hfirst]
  simp only [takes_bind, takes_tables, takes_require]
  let j : Judgement := .unmatch logger id user reason now
  let notes₁ : List RowLock := j.found [] d ++ []
  have hresults : ∀ r ∈ d.matchRows first, RowLock.result r.id ∈ notes₁ := fun r hr =>
    List.mem_append_left _ (List.mem_append_left _ (List.mem_append_left _
      (hmatch ▸ List.mem_map_of_mem (f := fun r : MatchResult => RowLock.result r.id) hr)))
  have hsides : ∀ t ∈ matchSides (d.matchRows first), RowLock.transaction t ∈ notes₁ := fun t ht =>
    List.mem_append_left _ (List.mem_append_left _ (List.mem_append_right _
      (hmatch ▸ List.mem_map_of_mem (f := RowLock.transaction) ht)))
  have h₁ : Deciding id notes₁ held := hdeciding.mono (List.nil_subset _)
  refine (h₁.work rfl (lockResults_work (W := fun _ => True) _) (lockResults_steady _ fun r hr =>
    ⟨result_ne_chainLock r.id, hresults r hr⟩)).mono ?_
  rintro _ notes₂ held₂ ⟨hsub₂, h₂⟩ - d₂
  have h₃ := h₂.mono (List.subset_append_right (j.found notes₂ d₂) notes₂)
  refine (h₃.work rfl (releaseClaims_work (W := fun _ => True) (fun _ => trivial) _)
    (releaseClaims_steady _ fun c hc => ⟨claimKey_ne_chainLock _, ?_⟩)).mono ?_
  · -- The row of a claim that is released is one of those locked before.
    obtain ⟨hin, hactive, r, hr, hof⟩ := by simpa using hc
    refine List.mem_append_left _ (List.mem_append_right _ (List.mem_map.mpr ⟨c, ?_, rfl⟩))
    refine List.mem_filter.mpr ⟨hin, decide_eq_true ⟨hactive, _, hsub₂ (hresults r hr), ?_⟩⟩
    rw [hof]
    rfl
  rintro _ notes₄ held₄ ⟨hsub₄, h₄⟩ d₃
  have h₅ := h₄.mono (List.subset_append_right (j.found notes₄ d₃) notes₄)
  refine (h₅.work rfl (returnToPool_work (W := fun _ => True) (fun _ => trivial) _)
    (returnToPool_steady _ fun t ht => ⟨transaction_ne_chainLock _, ?_⟩)).mono ?_
  · have ht := of_decide_eq_true (List.mem_filter.mp ht).2
    exact List.mem_append_right _ (hsub₄ (List.mem_append_right _ (hsub₂ (hsides t.id ht))))
  rintro _ notes₆ held₆ ⟨-, h₆⟩
  refine (h₆.work rfl (rejectRows_work (W := fun _ => True) user (fun _ => trivial) _)
    (rejectRows_steady user _)).mono ?_
  rintro _ notes₇ held₇ ⟨-, h₇⟩
  exact (append_takes logger (h₇.asks rfl (Or.inl rfl))).mono fun _ _ _ _ => trivial

/-! ## A manual match -/

/-- A manual match that has both its rows, and holds besides only their keys. -/
structure PairLocks (internalId externalId : Id) (held : List RowLock) : Prop where
  internal : .transaction internalId ∈ held
  external : .transaction externalId ∈ held
  rows : ∀ l ∈ held, l = .transaction internalId ∨ l = .transaction externalId ∨
    l = .claimKey internalId ∨ l = .claimKey externalId

section

variable {logger : AuditLogger} {internalId externalId : Id} {user note : String} {now : Instant}
  {notes held : List RowLock}

theorem PairLocks.asks (h : PairLocks internalId externalId held) {l : RowLock}
    (hl : l ∈ held ∨ l = .claimKey internalId ∨ l = .claimKey externalId ∨ l = chainLock) :
    (Judgement.create logger internalId externalId user note now).conduct.asks notes held l := by
  have habout : ∀ x ∈ held,
      x ∈ (Judgement.create logger internalId externalId user note now).about notes :=
    fun x hx => by simpa [Judgement.about] using h.rows x hx
  refine ⟨fun hmem => ?_, ?_, ?_⟩
  · obtain heq | heq | heq | heq := h.rows _ hmem <;> cases heq
  · intro x hx
    obtain rfl | hx := List.mem_cons.mp hx
    · obtain hl | rfl | rfl | rfl := hl
      · exact Or.inr (habout x hl)
      · exact Or.inr (by simp [Judgement.about])
      · exact Or.inr (by simp [Judgement.about])
      · exact Or.inl rfl
    · exact Or.inr (habout x hx)
  · obtain hl | hl := hl
    · exact Or.inr (Or.inr (Or.inl hl))
    · exact Or.inr (Or.inr (Or.inr ⟨h.internal, h.external, hl⟩))

/-- Work on the rows and their keys leaves the manual match with both rows. -/
theorem PairLocks.work {α : Type} {W : RowWrite → Prop} {L : RowLock → Prop} {p : Prog α}
    (h : PairLocks internalId externalId held) (hp : p.Work W) (hs : p.Steady L)
    (hL : ∀ l, L l → l = .transaction internalId ∨ l = .transaction externalId ∨
      l = .claimKey internalId ∨ l = .claimKey externalId) :
    p.Takes (Judgement.create logger internalId externalId user note now).conduct
      (fun _ _ held' => PairLocks internalId externalId held') notes held := by
  have habove : ∀ notes' held', Above (S := schema) L notes held notes' held' →
      PairLocks internalId externalId held' := by
    rintro notes' held' ⟨-, taken, rfl, htaken⟩
    refine ⟨List.mem_append_right _ h.internal, List.mem_append_right _ h.external, fun l hl => ?_⟩
    exact (List.mem_append.mp hl).elim (fun hl => hL l (htaken l hl)) (h.rows l)
  refine (hp.takes hs.steadyToEnd fun notes' held' hab l hl => ?_).mono
    fun _ notes' held' hab => habove notes' held' hab
  have hpairing := habove notes' held' hab
  obtain rfl | rfl | rfl | rfl := hL l hl
  · exact hpairing.asks (Or.inl hpairing.internal)
  · exact hpairing.asks (Or.inl hpairing.external)
  · exact hpairing.asks (Or.inr (Or.inl rfl))
  · exact hpairing.asks (Or.inr (Or.inr (Or.inl rfl)))

/-- Loading a side locks its row. -/
theorem loadTransaction_takes {C : Conduct schema} (id : Id) (label : String)
    (h : C.asks notes held (.transaction id)) :
    (loadTransaction id label).Takes C
      (fun row _ held' => row.id = id ∧ held' = .transaction id :: held) notes held := by
  refine takes_bind.mpr ⟨h, takes_bind.mpr fun d => ?_⟩
  simp only [takes_pure]
  split
  · rename_i row hrow
    exact ⟨by simpa using List.find?_some hrow, rfl⟩
  · trivial

/-- A manual match takes one side, then the other, then their keys, then the chain. -/
theorem create_takes (logger : AuditLogger) (internalId externalId : Id) (user note : String)
    (now : Instant) :
    (createMatch logger internalId externalId user note now).Takes
      (Judgement.create logger internalId externalId user note now).conduct
      (fun _ _ _ => True) [] [] := by
  have hfirst : (Judgement.create logger internalId externalId user note now).conduct.asks [] []
      (.transaction internalId) :=
    ⟨List.not_mem_nil, fun x hx => Or.inr (by simp_all [Judgement.about]), Or.inl rfl⟩
  refine takes_bind.mpr ((loadTransaction_takes internalId "internal" hfirst).mono ?_)
  rintro internal notes₁ _ ⟨rfl, rfl⟩
  have hsecond : (Judgement.create logger internal.id externalId user note now).conduct.asks notes₁
      [.transaction internal.id] (.transaction externalId) := by
    refine ⟨fun h => RowLock.noConfusion (List.mem_singleton.mp h), fun x hx => Or.inr ?_,
      Or.inr (Or.inl ⟨rfl, rfl⟩)⟩
    simp only [List.mem_cons, List.not_mem_nil, or_false] at hx
    obtain rfl | rfl := hx <;> simp [Judgement.about]
  refine takes_bind.mpr ((loadTransaction_takes externalId "external" hsecond).mono ?_)
  rintro external notes₂ _ ⟨rfl, rfl⟩
  have hpairing : PairLocks internal.id external.id
      [.transaction external.id, .transaction internal.id] :=
    ⟨List.mem_cons_of_mem _ List.mem_cons_self, List.mem_cons_self, fun l hl => by
      simp only [List.mem_cons, List.not_mem_nil, or_false] at hl
      exact hl.elim (fun h => Or.inr (Or.inl h)) Or.inl⟩
  simp only [requireFree, bind_eq, takes_bind, takes_require, takes_tables]
  intro _ _ _ _ _ _
  have hkeys : (recordPair (manualColumns user internal external)).Steady fun l : RowLock =>
      l = .claimKey internal.id ∨ l = .claimKey external.id :=
    recordPair_steady (Or.inl rfl) (Or.inr rfl)
  have hlevel : (recordPair (manualColumns user internal external)).Work
      (LevelWrite fun _ => True) := recordPair_level trivial
  refine (hpairing.work hlevel hkeys fun l hl => Or.inr (Or.inr hl)).mono ?_
  rintro (_ | id) notes₃ held₃ h₃
  · trivial
  have hrows : (markMatched (manualColumns user internal external)).Steady fun l : RowLock =>
      l = .transaction internal.id ∨ l = .transaction external.id := by
    refine markAll_steady _ fun t ht => ?_
    obtain rfl | ht := List.mem_cons.mp ht
    · exact Or.inl rfl
    · rw [List.mem_singleton.mp ht]
      exact Or.inr rfl
  have hmarks : (markMatched (manualColumns user internal external)).Work
      (LevelWrite fun _ => True) := markMatched_level
  simp only [takes_bind]
  refine (h₃.work hmarks hrows fun l hl => hl.imp_right Or.inl).mono ?_
  rintro _ notes₄ held₄ h₄
  exact (append_takes logger (h₄.asks (Or.inr (Or.inr (Or.inr rfl))))).mono fun _ _ _ _ => trivial

end

/-! ## Every session -/

/-- A session on the matching tables: the run, or the request of a person. -/
inductive Party where
  | run (bankCode : String) (range : DateRange)
  | person (j : Judgement)

/-- What a session is about, with what it has found: a run, only that. -/
def Party.about : Party → List RowLock → List RowLock
  | .run .., notes => notes
  | .person j, notes => j.about notes

def Party.conduct : Party → Conduct schema
  | .run bankCode range => runConduct bankCode range
  | .person j => j.conduct

/-- **A session locks what it is about**, and the chain. -/
theorem Party.asks_about {p : Party} {notes held : List RowLock} {l : RowLock}
    (h : p.conduct.asks notes held l) : OfRows (p.about notes) held l := by
  cases p with
  | run bankCode range => exact h
  | person j => exact h.2.1

/-- **Every request keeps to its conduct.** -/
theorem Judgement.takes (j : Judgement) :
    j.client.prog.Takes j.conduct (fun _ _ _ => True) [] [] := by
  cases j with
  | create logger internalId externalId user note now =>
    exact takes_bind.mpr ((create_takes logger internalId externalId user note now).mono
      fun _ _ _ _ => trivial)
  | unmatch logger id user reason now =>
    exact takes_bind.mpr ((unmatch_takes logger id user reason now).mono fun _ _ _ _ => trivial)
  | confirm logger id reviewer note now =>
    exact takes_bind.mpr ((confirm_takes logger id reviewer note now).mono fun _ _ _ _ => trivial)
  | reject logger id reviewer reason now =>
    exact takes_bind.mpr ((reject_takes logger id reviewer reason now).mono fun _ _ _ _ => trivial)

end Recon
