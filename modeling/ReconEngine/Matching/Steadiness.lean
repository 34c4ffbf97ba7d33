import ReconEngine.Matching.Orchestrator
import ReconEngine.Store.Reliance

/-!
# What a level relies on, and what it locks

A level marks the rejected pairs it has read and drops the mark when it ends. **No level drops it
earlier**: nothing that a level calls gives up a mark, so whatever it writes, it writes while it
still relies on the pairs being as it read them.

**The law** (one theorem for each level, `exactRun_steady` and so on): a level on two pools is steady
to its end, and asks for no locks but those of the rows of its pools, of their claim keys and of the
matching chain (`LocksRows`). What it pairs comes from the pools whatever it reads in between, so
neither the choice of a pair nor the order of the pools matters.

**What it does not establish.** That the rows of the pools are still free when they are locked, and
in which order they are locked: a level claims first, and locks the rows for their statuses later.
-/

set_option autoImplicit false

namespace Recon

open Store
open Store.Prog hiding pure bind

/-- The locks of `L` include what a level on some rows asks for: the rows, their claim keys and the
matching chain. -/
structure LocksRows (L : RowLock → Prop) (rows : List Id) : Prop where
  transaction : ∀ t ∈ rows, L (.transaction t)
  claimKey : ∀ t ∈ rows, L (.claimKey t)
  chain : L (.chain matchingChain)

theorem LocksRows.all (rows : List Id) : LocksRows (fun _ => True) rows :=
  ⟨fun _ _ => trivial, fun _ _ => trivial, trivial⟩

section

variable {L : RowLock → Prop}

/-- A level is steady to its end when its body is steady. -/
theorem level_steadyToEnd {α : Type} {pairs : Db → List Id × List Id} {body : Db → Prog α}
    (h : ∀ d, (body d).Steady L) : (level pairs body).SteadyToEnd L :=
  fun d => (h d).toEnd

theorem steady_of_level {α : Type} {pairs : Db → List Id × List Id} {body : Db → Prog α}
    (h : (level pairs body).SteadyToEnd L) (d : Db) : (body d).Steady L :=
  (h d).steady

theorem steady_tables : tables.Steady L := fun _ => trivial

/-! ## Claims, rows and statuses -/

theorem insertClaims_steady : ∀ sides : List ClaimSide,
    (∀ side ∈ sides, L (.claimKey side.transaction)) → (insertClaims sides).Steady L
  | [], _ => steady_pure _
  | side :: sides, h => by
    have hkey := h side List.mem_cons_self
    refine Steady.bind (Steady.bind (steady_lockRow.mpr hkey) fun _ => Steady.bind steady_tables
      fun _ => Steady.bind (steady_require _ _) fun _ => Steady.bind steady_newId fun _ =>
      Steady.bind (steady_put _) fun _ => steady_pure _) fun claim => ?_
    have hrest := fun side' hside => h side' (List.mem_cons_of_mem side hside)
    exact (insertClaims_steady sides hrest).bind fun _ => steady_pure _

/-- Claiming asks for the keys it claims. -/
theorem claimGroup_steady {sides : List ClaimSide}
    (h : ∀ side ∈ sides, L (.claimKey side.transaction)) : (claimGroup sides).Steady L :=
  Steady.attempt ((insertClaims_steady sides h).bind fun _ => steady_pure _) fun _ => steady_pure _

/-- A pair asks for the keys of its sides. -/
theorem recordPair_steady {m : MatchColumns} (hi : L (.claimKey m.internalTransactionId))
    (he : L (.claimKey m.externalTransactionId)) : (recordPair m).Steady L := by
  have hsides : (claimPair m.internalTransactionId m.externalTransactionId).Steady L := by
    refine claimGroup_steady fun side hside => ?_
    obtain rfl | hside := List.mem_cons.mp hside
    · exact hi
    · rw [List.mem_singleton.mp hside]
      exact he
  refine hsides.bind fun claims => ?_
  split
  · exact Steady.bind steady_newId fun _ => Steady.bind (steady_put _) fun _ =>
      Steady.bind (steady_put _) fun _ => Steady.bind (steady_put _) fun _ => steady_pure _
  · exact steady_pure _

/-- Statuses ask for the rows they are written to. -/
theorem markAll_steady : ∀ ts : List Id, (∀ t ∈ ts, L (.transaction t)) → (markAll ts).Steady L
  | [], _ => steady_pure _
  | t :: ts, h => by
    have hrow := h t List.mem_cons_self
    exact Steady.bind (Steady.bind (steady_lockRow.mpr hrow) fun _ => steady_put _) fun _ =>
      markAll_steady ts fun t' ht => h t' (List.mem_cons_of_mem t ht)

theorem insertResults_steady : ∀ ms : List MatchColumns, (insertResults ms).Steady L
  | [] => steady_pure _
  | _ :: ms => Steady.bind steady_newId fun _ => Steady.bind (steady_put _) fun _ =>
      (insertResults_steady ms).bind fun _ => steady_pure _

/-- The rows that are inserted have the columns that were given. -/
theorem insertResults_columns : ∀ ms : List MatchColumns,
    (insertResults ms).Returns fun rows => ∀ r ∈ rows, r.toMatchColumns ∈ ms
  | [] => fun _ h => absurd h List.not_mem_nil
  | m :: ms => by
    intro id
    refine (insertResults_columns ms).bind fun rows hrows r hr => ?_
    obtain rfl | hr := List.mem_cons.mp hr
    · exact List.mem_cons_self
    · exact List.mem_cons_of_mem m (hrows r hr)

theorem recordBatch_steady {ms : List MatchColumns}
    (h : ∀ m ∈ ms, L (.claimKey m.internalTransactionId) ∧ L (.claimKey m.externalTransactionId)) :
    (recordBatch ms).Steady L := by
  refine (insertResults_steady ms).bind_returns (insertResults_columns ms) fun rows hrows => ?_
  refine (insertClaims_steady _ fun side hside => ?_).bind fun _ => steady_pure _
  obtain ⟨r, hr, hside⟩ := List.mem_flatMap.mp hside
  obtain rfl | hside := List.mem_cons.mp hside
  · exact (h _ (hrows r hr)).1
  · rw [List.mem_singleton.mp hside]
    exact (h _ (hrows r hr)).2

theorem append_steady (logger : AuditLogger) {e : AuditEvent} (h : L (.chain e.chainId)) :
    (logger.append e).Steady L := by
  refine Steady.bind (steady_require _ _) fun _ => Steady.bind (steady_require _ _) fun _ =>
    Steady.bind (steady_lockRow.mpr h) fun _ => Steady.bind steady_tables fun d =>
    Steady.bind steady_newId fun eventId => ?_
  dsimp only
  split
  · exact steady_fail _
  · exact Steady.bind (steady_put _) fun _ => steady_pure _

theorem auditIf_steady (audit : Option Auditor) {event : Instant → AuditEvent}
    (h : ∀ now, L (.chain (event now).chainId)) : (auditIf audit event).Steady L := by
  cases audit with
  | none => exact steady_pure _
  | some a => exact (append_steady a.logger (h a.now)).bind fun _ => steady_pure _

/-- Both sides of a pair are among the rows. -/
def MatchColumns.Sides (rows : List Id) (m : MatchColumns) : Prop :=
  m.internalTransactionId ∈ rows ∧ m.externalTransactionId ∈ rows

theorem MatchColumns.Sides.marks {rows : List Id} {m : MatchColumns} (h : m.Sides rows) :
    ∀ t ∈ m.marks, t ∈ rows := by
  intro t ht
  unfold MatchColumns.marks at ht
  split at ht
  · cases ht
  · obtain rfl | ht := List.mem_cons.mp ht
    · exact h.1
    · rw [List.mem_singleton.mp ht]
      exact h.2

theorem LocksRows.recordPair {rows : List Id} (h : LocksRows L rows) {m : MatchColumns}
    (hm : m.Sides rows) : (Recon.recordPair m).Steady L :=
  recordPair_steady (h.claimKey _ hm.1) (h.claimKey _ hm.2)

theorem LocksRows.markMatched {rows : List Id} (h : LocksRows L rows) {m : MatchColumns}
    (hm : m.Sides rows) : (Recon.markMatched m).Steady L := by
  refine markAll_steady _ fun t ht => h.transaction t ?_
  obtain rfl | ht := List.mem_cons.mp ht
  · exact hm.1
  · rw [List.mem_singleton.mp ht]
    exact hm.2

/-! ## The exact levels -/

/-- The pairs of the statement are of its pool. -/
theorem setBasedColumns_pool (run : Id) (bankCode : String) (range : DateRange) (d : Db) :
    ∀ m ∈ setBasedColumns run d bankCode range, m.Sides (ids (setBasedPool d bankCode range)) := by
  intro m hm
  obtain ⟨⟨i, e⟩, hp, rfl⟩ := List.mem_map.mp hm
  have hpair := (mem_setBasedAllowed.mp hp).1
  exact ⟨List.mem_map_of_mem (mem_setBasedPairs.mp hpair).1,
    List.mem_map_of_mem (external_of_mem_setBasedPairs hpair).1⟩

theorem setBasedIds_pool (bankCode : String) (range : DateRange) (d : Db) :
    setBasedIds d bankCode range ⊆ ids (setBasedPool d bankCode range) := by
  intro t ht
  have hsides := setBasedColumns_pool 0 bankCode range d
  obtain ⟨p, hp, rfl | rfl⟩ := mem_setBasedIds.mp ht
  · exact (hsides _ (List.mem_map_of_mem hp)).1
  · exact (hsides _ (List.mem_map_of_mem hp)).2

/-- After its first read the statement locks rows of the pool it has read, and their claim keys. -/
theorem setBasedRun_steady (run : Id) (bankCode : String) (range : DateRange) :
    ∃ marks next, setBasedRun run bankCode range = .read marks next ∧
      ∀ d (L : RowLock → Prop), LocksRows L (ids (setBasedPool d bankCode range)) →
        (next d).SteadyToEnd L := by
  refine ⟨_, _, rfl, fun d L h => Steady.toEnd ?_⟩
  refine Steady.bind (recordBatch_steady fun m hm => ?_) fun out =>
    Steady.bind (Steady.foldlM _ _ fun updated t ht => ?_) fun _ =>
    Steady.bind (steady_require _ _) fun _ => steady_pure _
  · have hm := setBasedColumns_pool run bankCode range d m hm
    exact ⟨h.claimKey _ hm.1, h.claimKey _ hm.2⟩
  · have ht := setBasedIds_pool bankCode range d ht
    refine Steady.bind (steady_lockRow.mpr (h.transaction t ht)) fun _ =>
      Steady.bind steady_tables fun d => ?_
    split
    · exact Steady.bind (steady_put _) fun _ => steady_pure _
    · exact steady_pure _

variable {internals externals : List NormalisedTransaction}

/-- An internal and an external of the pools are among their rows. -/
theorem mem_poolIds {internal external : NormalisedTransaction} (hi : internal ∈ internals)
    (he : external ∈ externals) : internal.id ∈ ids internals ++ ids externals ∧
      external.id ∈ ids internals ++ ids externals :=
  ⟨List.mem_append_left _ (List.mem_map_of_mem hi), List.mem_append_right _ (List.mem_map_of_mem he)⟩

theorem exactTurn_steady (h : LocksRows L (ids internals ++ ids externals)) (run : Id)
    (rejected : List (Id × Id)) {st : ExactState} {external : NormalisedTransaction}
    (hst : st.Within internals) (he : external ∈ externals) :
    (exactTurn run rejected st external).Steady L := by
  unfold exactTurn
  split
  · exact steady_pure _
  · split
    · exact steady_pure _
    · rename_i key _ _ internal hchoice
      have hi := hst _ (mem_of_disambiguate hchoice).1
      have hpair : (exactColumns run internal external (st.index.bucket key).length).Sides
          (ids internals ++ ids externals) := mem_poolIds hi he
      refine (h.recordPair hpair).bind fun id => ?_
      cases id with
      | none => exact steady_pure _
      | some id => exact (h.markMatched hpair).bind fun _ => steady_pure _

/-- The exact stage asks for rows of its pools. -/
theorem exactRun_steady (h : LocksRows L (ids internals ++ ids externals)) (run : Id) :
    (exactRun run internals externals).SteadyToEnd L := by
  refine level_steadyToEnd fun d => Steady.bind ?_ fun _ => steady_pure _
  refine Steady.foldlM_returns _ _ (buildIndex_within internals _) fun st hst external he => ?_
  refine ⟨exactTurn_steady h run _ hst he, ?_⟩
  exact (exactTurn_stage hst he).2

/-! ## Legs in another currency -/

theorem legInr_steady (t : NormalisedTransaction) : (legInr t).Steady L := by
  refine Steady.bind (Steady.bind steady_tables fun _ => steady_pure _) fun q => ?_
  cases q with
  | none => exact steady_pure _
  | some q =>
    dsimp only
    split
    · exact steady_fail _
    · exact steady_pure _

theorem legsInr_steady : ∀ ts, (legsInr ts).Steady L
  | [] => steady_pure _
  | t :: ts => by
    refine (legInr_steady t).bind fun inr => ?_
    cases inr with
    | none => exact steady_pure _
    | some inr =>
      refine (legsInr_steady ts).bind fun rest => ?_
      cases rest <;> exact steady_pure _

theorem crossCurrencyMatch_steady (h : LocksRows L (ids internals ++ ids externals))
    (config : CrossCurrencyConfig) {internal external : NormalisedTransaction}
    (hi : internal ∈ internals) (he : external ∈ externals) (st : CrossCurrencyState) :
    (crossCurrencyMatch config internal external st).Steady L := by
  have hpair : (crossCurrencyColumns config.run internal external).Sides
      (ids internals ++ ids externals) := mem_poolIds hi he
  refine (h.recordPair hpair).bind fun id => ?_
  cases id with
  | none => exact steady_pure _
  | some id =>
    exact (auditIf_steady _ fun _ => h.chain).bind fun _ =>
      (h.markMatched hpair).bind fun _ => steady_pure _

theorem crossCurrencyRun_steady (h : LocksRows L (ids internals ++ ids externals))
    (config : CrossCurrencyConfig) : (crossCurrencyRun config internals externals).SteadyToEnd L := by
  refine level_steadyToEnd fun d =>
    Steady.bind (Steady.foldlM _ _ fun st external he => ?_) fun _ => steady_pure _
  unfold crossCurrencyTurn
  split
  · exact steady_pure _
  · rename_i internal hpeers
    have hi := (mem_crossCurrencyPeers (hpeers ▸ List.mem_singleton_self internal)).1
    refine (legInr_steady _).bind fun internalInr => ?_
    cases internalInr with
    | none => exact steady_pure _
    | some internalInr =>
      refine (legInr_steady _).bind fun externalInr => ?_
      cases externalInr with
      | none => exact steady_pure _
      | some externalInr =>
        dsimp only
        split
        · exact steady_pure _
        · exact crossCurrencyMatch_steady h _ hi he _
  · exact steady_pure _

/-! ## Groups -/

section

variable (g : GroupStrategy) (maxMembers : Nat) (single : NormalisedTransaction)
  (candidates : List NormalisedTransaction)

theorem groupLegs_steady : (groupLegs g single candidates).Steady L := by
  unfold groupLegs
  split
  · exact steady_pure _
  · split
    · exact steady_pure _
    · refine (legsInr_steady _).bind fun legs => ?_
      split
      · exact Steady.bind (steady_ofExcept _) fun _ => steady_pure _
      · exact steady_pure _

theorem groupLink_steady (link : GroupLink) (confidence : Nat) (outcome : GroupMatchOutcome) :
    (groupLink g maxMembers single candidates link confidence outcome).Steady L := by
  unfold groupLink
  split
  · exact steady_pure _
  · refine (groupLegs_steady g single candidates).bind fun legs => ?_
    cases legs with
    | none => exact steady_pure _
    | some legs =>
      dsimp only
      split
      · exact steady_fail _
      · split
        · exact steady_pure _
        · exact steady_pure _
        · exact steady_pure _
        · exact Steady.bind (steady_ofExcept _) fun _ => steady_pure _

theorem recordMembers_steady (columns : NormalisedTransaction → MatchColumns)
    (singleClaim : MatchClaim) :
    ∀ (first : Bool) (members : List (NormalisedTransaction × MatchClaim)),
      (recordMembers columns singleClaim first members).Steady L
  | _, [] => steady_pure _
  | first, (member, claim) :: rest => by
    refine Steady.bind steady_newId fun id => Steady.bind (steady_put _) fun _ =>
      Steady.bind (steady_put _) fun _ => ?_
    have hrest := recordMembers_steady columns singleClaim false rest
    cases first with
    | true => exact Steady.bind (steady_put _) fun _ => hrest
    | false => exact hrest

theorem groupSides_transactions (kind : GroupKind) (members : List NormalisedTransaction) :
    (groupSides kind single members).map (·.transaction) = single.id :: ids members := by
  cases kind <;> simp [groupSides, ids]

/-- The single side and the members of a group are among the rows. -/
theorem groupRecord_steady {rows : List Id} (h : LocksRows L rows) (kind : GroupKind)
    {solution : GroupSolution} (hsingle : single.id ∈ rows)
    (hmembers : ∀ m ∈ solution.members, m.id ∈ rows) :
    (groupRecord g kind single solution).Steady L := by
  have hmarks : ∀ t ∈ single.id :: ids solution.members, t ∈ rows := by
    intro t ht
    obtain rfl | ht := List.mem_cons.mp ht
    · exact hsingle
    · obtain ⟨m, hm, rfl⟩ := List.mem_map.mp ht
      exact hmembers m hm
  have hsides : ∀ side ∈ groupSides kind single solution.members,
      side.transaction ∈ single.id :: ids solution.members := by
    intro side hside
    have hmem := List.mem_map_of_mem (f := (·.transaction)) hside
    rwa [groupSides_transactions] at hmem
  refine (claimGroup_steady fun side hside => h.claimKey _ (hmarks _ (hsides side hside))).bind
    fun claims => ?_
  split
  · exact Steady.bind steady_newId fun _ => (recordMembers_steady _ _ _ _).bind fun _ =>
      (auditIf_steady _ fun _ => h.chain).bind fun _ =>
      (markAll_steady _ fun t ht => h.transaction t (hmarks t ht)).bind fun _ => steady_pure _
  · exact steady_pure _

theorem groupSolve_steady (pool : List NormalisedTransaction) (rejected : List (Id × Id))
    (consumed : List Id) (outcome : GroupMatchOutcome) :
    (groupSolve g maxMembers pool rejected consumed outcome single).Steady L := by
  refine (groupLink_steady _ _ _ _ _ _ _).bind fun out => ?_
  dsimp only
  split
  · exact steady_pure _
  · exact groupLink_steady _ _ _ _ _ _ _

theorem groupTurn_steady {rows : List Id} (h : LocksRows L rows) (kind : GroupKind)
    {pool : List NormalisedTransaction} (hsingle : single.id ∈ rows)
    (hpool : ∀ t ∈ pool, t.id ∈ rows) (rejected : List (Id × Id)) (st : GroupState) :
    (groupTurn g kind pool rejected st single).Steady L := by
  unfold groupTurn
  dsimp only
  split
  · exact steady_pure _
  · refine (groupSolve_steady _ _ _ _ _ _ _).bind_returns groupSolve_sound fun out hsound => ?_
    obtain ⟨solution, outcome⟩ := out
    cases solution with
    | none => exact steady_pure _
    | some solution =>
      refine (groupRecord_steady g single h kind hsingle fun m hm =>
        hpool m ((hsound solution rfl).2 m hm).1).bind fun group => ?_
      cases group <;> exact steady_pure _

theorem groupRun_steady (h : LocksRows L (ids internals ++ ids externals)) :
    (groupRun g internals externals).SteadyToEnd L := by
  have hinternals : ∀ t ∈ internals, t.id ∈ ids internals ++ ids externals := fun t ht =>
    List.mem_append_left _ (List.mem_map_of_mem ht)
  have hexternals : ∀ t ∈ externals, t.id ∈ ids internals ++ ids externals := fun t ht =>
    List.mem_append_right _ (List.mem_map_of_mem ht)
  exact level_steadyToEnd fun _ =>
    Steady.bind (Steady.foldlM _ _ fun _ t ht =>
      groupTurn_steady g t h .split (hinternals t ht) hexternals _ _) fun _ =>
    Steady.bind (Steady.foldlM _ _ fun _ t ht =>
      groupTurn_steady g t h .netted (hexternals t ht) hinternals _ _) fun _ =>
    steady_pure _

end

/-! ## Fuzzy and rules -/

theorem writeOnes_steady {rows : List Id} (h : LocksRows L rows) :
    ∀ ms : List MatchColumns, (∀ m ∈ ms, m.Sides rows) → (writeOnes ms).Steady L
  | [], _ => steady_pure _
  | m :: ms, hm => (h.recordPair (hm m List.mem_cons_self)).bind fun _ =>
      (writeOnes_steady h ms fun m' hm' => hm m' (List.mem_cons_of_mem m hm')).bind
        fun _ => steady_pure _

theorem fuzzyChunk_steady {rows : List Id} (h : LocksRows L rows) (outcome : FuzzyMatchOutcome)
    {chunk : List MatchColumns} (hchunk : ∀ m ∈ chunk, m.Sides rows) :
    (fuzzyChunk outcome chunk).Steady L := by
  have hbatch : (writeChunk chunk).Steady L := by
    refine Steady.attempt ((recordBatch_steady fun m hm => ?_).bind fun _ => steady_pure _)
      fun _ => steady_pure _
    exact ⟨h.claimKey _ (hchunk m hm).1, h.claimKey _ (hchunk m hm).2⟩
  refine Steady.bind (hbatch.bind fun out => ?_) fun written =>
    (markAll_steady _ fun t ht => h.transaction t ?_).bind fun _ => steady_pure _
  · cases out with
    | some ids => exact steady_pure _
    | none => exact writeOnes_steady h chunk hchunk
  · obtain ⟨⟨m, id⟩, hm, ht⟩ := List.mem_flatMap.mp ht
    cases id with
    | none => cases ht
    | some id => exact (hchunk m (List.of_mem_zip hm).1).marks t ht

theorem fuzzyRun_steady (h : LocksRows L (ids internals ++ ids externals)) (f : FuzzyStrategy) :
    (fuzzyRun f internals externals).SteadyToEnd L := by
  unfold fuzzyRun
  split
  · trivial
  · rename_i generator hg
    refine level_steadyToEnd fun d => ?_
    dsimp only
    split
    · exact steady_fail _
    · rename_i chosen hchosen
      refine Steady.foldlM _ _ fun outcome chunk hchunk => fuzzyChunk_steady h _ fun m hm => ?_
      have hrow := fuzzyChoose_rows hg (fun _ h => h) hchosen m (mem_chunksOf hchunk hm)
      exact ⟨List.mem_append_left _ hrow.allowed.1, List.mem_append_right _ hrow.allowed.2.1⟩

theorem ruleHit_steady (h : LocksRows L (ids internals ++ ids externals)) (r : RuleStrategy)
    (st : RuleState) {internal external : NormalisedTransaction} (hi : internal ∈ internals)
    (he : external ∈ externals) (rule : Rule) (result : RuleResult) (count : Nat) :
    (ruleHit r st internal external rule result count).Steady L := by
  have hpair : (ruleColumns r internal external rule result count).Sides
      (ids internals ++ ids externals) := mem_poolIds hi he
  refine (h.recordPair hpair).bind fun id => ?_
  cases id with
  | none => exact steady_pure _
  | some id =>
    dsimp only
    split
    · exact (h.markMatched hpair).bind fun _ => steady_pure _
    · exact steady_pure _

theorem ruleRun_steady (h : LocksRows L (ids internals ++ ids externals)) (r : RuleStrategy) :
    (ruleRun r internals externals).SteadyToEnd L := by
  unfold ruleRun
  split
  · trivial
  · rename_i generator hg
    refine level_steadyToEnd fun d =>
      Steady.bind (Steady.foldlM _ _ fun st external he => ?_) fun _ => steady_pure _
    unfold ruleTurn
    split
    · exact steady_fail _
    · rename_i set hset
      dsimp only
      split
      · exact steady_pure _
      · rename_i internal rule result others hhits
        split
        · exact steady_pure _
        · have hhit : (internal, rule, result) ∈ ruleHits r.registry
              (availableCandidates (d.rejectedPairs (ids internals)) st.consumed external
                set.candidates) external := by
            rw [hhits]
            exact List.mem_cons_self
          have hcandidate := (mem_availableCandidates.mp (mem_ruleHits hhit).1).1
          have hi := ((CandidateGenerator.generate_spec hg hset).2 internal hcandidate).1
          exact ruleHit_steady h r _ hi he _ _ _

end

end Recon
