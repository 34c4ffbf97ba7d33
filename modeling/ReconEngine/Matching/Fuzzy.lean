import ReconEngine.Matching.Blocking
import ReconEngine.Matching.Scoring
import ReconEngine.Store.Groups

/-!
# Fuzzy matching

`FuzzyMatchingStrategy` scores the blocked candidates of every external and chooses its best one.
All choices are made in memory first. They are written in chunks under one savepoint each; a
chunk with a conflicting claim is redone pair by pair, and the statuses of a chunk are written
after it. A pair of the review band is claimed like any other but not MATCHED.

**The laws** (`fuzzyChoose_origin`, `writeChunk_workable`, `fuzzyRun_onPools`, `fuzzyRun_reviews`):
chosen rows come from the pools and were not rejected, a chunk is there as a whole or not at all,
and the outcome counts what was put under review.

**What they do not establish.** That a chunk and its pairs one by one come to the same: that is
`Matching.FuzzyChunks`. Scores are those of `Matching.Scoring`, with the library a parameter.
-/

set_option autoImplicit false

namespace Recon

open Store (chunksOf mem_chunksOf)
open Store.Prog hiding pure bind

structure FuzzyStrategy where
  run : Id
  blocking : BlockingConfig
  amountToleranceMinor : Int
  config : MatchingConfig
  text : TextSimilarity

structure FuzzyMatchOutcome where
  autoMatchedCount : Nat := 0
  reviewCount : Nat := 0
  skippedClaimConflictCount : Nat := 0
  matchResultIds : List Id := []
deriving DecidableEq, Repr

/-! ## Choosing -/

/-- The first candidate with the highest confidence among those that are proposed at all. -/
def bestCandidate (f : FuzzyStrategy) (external : NormalisedTransaction)
    (candidates : List NormalisedTransaction) : Option ScoredCandidate :=
  -- The order is named: another one that instance search may find does not compute.
  @List.argmax _ Int Int.instLinearOrder.toPreorder Int.decLt (·.confidence)
    ((candidates.map fun internal =>
      scoreCandidate f.text f.amountToleranceMinor f.config internal external).filter
        (·.decision ≠ .noMatch))

def fuzzyColumns (run : Id) (scored : ScoredCandidate) (candidateCount : Nat) : MatchColumns where
  runId := .run run
  matchType := .fuzzy
  status := if scored.decision = .autoMatch then .autoMatched else .pendingReview
  confidence := scored.confidence.toNat
  internalTransactionId := scored.internalTxn.id
  externalTransactionId := scored.externalTxn.id
  candidateCount := candidateCount
  matchedOnDate := scored.externalTxn.txnDate

/-- Candidates that are neither taken nor rejected for the external. -/
def availableCandidates (rejected : List (Id × Id)) (consumed : List Id)
    (external : NormalisedTransaction) (candidates : List NormalisedTransaction) :
    List NormalisedTransaction :=
  candidates.filter fun c => !consumed.contains c.id && !rejected.contains (c.id, external.id)

/-- The first phase: the row to write for every external that has a match. -/
def fuzzyChoose (f : FuzzyStrategy) (generator : CandidateGenerator) (rejected : List (Id × Id)) :
    List Id → List NormalisedTransaction → Except ReconError (List MatchColumns)
  | _, [] => .ok []
  | consumed, external :: externals => do
    let set ← generator.generate external
    let available := availableCandidates rejected consumed external set.candidates
    match bestCandidate f external available with
    | none => fuzzyChoose f generator rejected consumed externals
    | some best => do
      let chosen ← fuzzyChoose f generator rejected (best.internalTxn.id :: consumed) externals
      return fuzzyColumns f.run best available.length :: chosen

/-! ## Writing -/

def writeChunkSize : Nat := 500

/-- `_write_chunk`. `none` means that a claim conflicted and nothing was written; the inserts raise
no other error. -/
def writeChunk (chunk : List MatchColumns) : Prog (Option (List Id)) :=
  attempt ((fun out => some (out.1.map (·.id))) <$> recordBatch chunk) fun _ => return none

/-- `_write_one` for every item of a chunk. -/
def writeOnes : List MatchColumns → Prog (List (Option Id))
  | [] => return []
  | m :: ms => do
    let id ← recordPair m
    let rest ← writeOnes ms
    return id :: rest

/-- The transactions that become MATCHED once a chunk is written. -/
def writtenMarks (written : List (MatchColumns × Option Id)) : List Id :=
  written.flatMap fun p => if p.2.isSome then p.1.marks else []

def FuzzyMatchOutcome.count (outcome : FuzzyMatchOutcome) (p : MatchColumns × Option Id) :
    FuzzyMatchOutcome :=
  match p.2 with
  | none => { outcome with skippedClaimConflictCount := outcome.skippedClaimConflictCount + 1 }
  | some id =>
    let outcome := { outcome with matchResultIds := outcome.matchResultIds ++ [id] }
    if p.1.status = .autoMatched then
      { outcome with autoMatchedCount := outcome.autoMatchedCount + 1 }
    else
      { outcome with reviewCount := outcome.reviewCount + 1 }

/-- The result of every item of a chunk; `none` for an item that is skipped. -/
def writeItems (chunk : List MatchColumns) : Prog (List (Option Id)) := do
  match ← writeChunk chunk with
  | some ids => return ids.map some
  | none => writeOnes chunk

/-- One chunk, with its statuses. -/
def fuzzyChunk (outcome : FuzzyMatchOutcome) (chunk : List MatchColumns) :
    Prog FuzzyMatchOutcome := do
  let out ← writeItems chunk
  let written := chunk.zip out
  markAll (writtenMarks written)
  return written.foldl FuzzyMatchOutcome.count outcome

/-- `FuzzyMatchingStrategy.run`. -/
def fuzzyRun (f : FuzzyStrategy) (internals externals : List NormalisedTransaction) :
    Prog FuzzyMatchOutcome :=
  match CandidateGenerator.build internals f.blocking with
  | .error e => .fail e
  | .ok generator =>
    levelOn internals externals fun rejected =>
      match fuzzyChoose f generator rejected [] externals with
      | .error e => .fail e
      | .ok chosen => (chunksOf writeChunkSize chosen).foldlM fuzzyChunk {}

/-! ## What is chosen -/

/-- A candidate is available when it is not consumed and was not rejected. -/
theorem mem_availableCandidates {rejected : List (Id × Id)} {consumed : List Id}
    {external c : NormalisedTransaction} {candidates : List NormalisedTransaction} :
    c ∈ availableCandidates rejected consumed external candidates ↔
      c ∈ candidates ∧ c.id ∉ consumed ∧ (c.id, external.id) ∉ rejected := by
  simp only [availableCandidates, List.mem_filter, Bool.and_eq_true, Bool.not_eq_true',
    List.contains_eq_mem, decide_eq_false_iff_not]

/-- A chosen row is for an external of the pool and a candidate of it that is not rejected. -/
theorem fuzzyChoose_origin {f : FuzzyStrategy} {generator : CandidateGenerator}
    {rejected : List (Id × Id)} {externals : List NormalisedTransaction} :
    ∀ {rest : List NormalisedTransaction} {consumed : List Id} {chosen : List MatchColumns},
      (∀ t ∈ rest, t ∈ externals) → fuzzyChoose f generator rejected consumed rest = .ok chosen →
      ∀ m ∈ chosen, ∃ internal external count set, external ∈ externals ∧
        generator.generate external = .ok set ∧ internal ∈ set.candidates ∧
        (internal.id, external.id) ∉ rejected ∧ m = fuzzyColumns f.run
          (scoreCandidate f.text f.amountToleranceMinor f.config internal external) count
  | [], consumed, chosen, _, h => by
    cases h
    exact fun m hm => absurd hm List.not_mem_nil
  | external :: rest, consumed, chosen, hrest, h => by
    obtain ⟨set, hset, h⟩ := except_bind_ok h
    have htail : ∀ t ∈ rest, t ∈ externals := fun t ht => hrest t (List.mem_cons_of_mem _ ht)
    dsimp only at h
    split at h
    · exact fuzzyChoose_origin htail h
    · rename_i best hbest
      obtain ⟨later, hlater, h⟩ := except_bind_ok h
      cases h
      intro m hm
      rcases List.mem_cons.mp hm with rfl | hm
      · obtain ⟨hmem, -⟩ := List.mem_filter.mp (List.argmax_mem hbest)
        obtain ⟨internal, hin, rfl⟩ := List.mem_map.mp hmem
        obtain ⟨hcand, -, hrej⟩ := mem_availableCandidates.mp hin
        exact ⟨internal, external, _, set, hrest _ List.mem_cons_self, hset, hcand, hrej, rfl⟩
      · exact fuzzyChoose_origin htail hlater m hm

/-- What the writing phase may rely on. -/
structure ChosenRow (internals externals : List NormalisedTransaction) (rejected : List (Id × Id))
    (m : MatchColumns) : Prop where
  allowed : Allowed internals externals rejected m.internalTransactionId m.externalTransactionId
  status : m.status = .autoMatched ∨ m.status = .pendingReview
  pair : m.matchGroupId = none

theorem ChosenRow.stands {internals externals : List NormalisedTransaction}
    {rejected : List (Id × Id)} {m : MatchColumns} (h : ChosenRow internals externals rejected m) :
    m.status ≠ .rejected := by
  intro hrej
  rcases h.status with hs | hs
  · rw [hs] at hrej
    cases hrej
  · rw [hs] at hrej
    cases hrej

/-- Every chosen row pairs rows of the pools that may be paired. -/
theorem fuzzyChoose_rows {f : FuzzyStrategy} {generator : CandidateGenerator}
    {rejected : List (Id × Id)} {internals externals : List NormalisedTransaction}
    (hg : CandidateGenerator.build internals f.blocking = .ok generator)
    {rest : List NormalisedTransaction} {consumed : List Id} {chosen : List MatchColumns}
    (hrest : ∀ t ∈ rest, t ∈ externals)
    (h : fuzzyChoose f generator rejected consumed rest = .ok chosen) :
    ∀ m ∈ chosen, ChosenRow internals externals rejected m := by
  intro m hm
  obtain ⟨internal, external, count, set, he, hset, hcand, hrej, rfl⟩ :=
    fuzzyChoose_origin hrest h m hm
  obtain ⟨-, hgen⟩ := CandidateGenerator.generate_spec hg hset
  constructor
  · exact ⟨List.mem_map_of_mem (hgen _ hcand).1, List.mem_map_of_mem he, hrej⟩
  · rw [fuzzyColumns]
    split
    · exact Or.inl rfl
    · exact Or.inr rfl
  · rfl

theorem writtenMarks_append (ps qs : List (MatchColumns × Option Id)) :
    writtenMarks (ps ++ qs) = writtenMarks ps ++ writtenMarks qs :=
  List.flatMap_append

/-- When every item is written, all of their statuses are due. -/
theorem writtenMarks_all : ∀ {chunk : List MatchColumns} {written : List Id},
    written.length = chunk.length →
    writtenMarks (chunk.zip (written.map some)) = chunk.flatMap (·.marks)
  | [], _, _ => rfl
  | m :: _, _ :: _, h =>
    congrArg (m.marks ++ ·) (writtenMarks_all (Nat.succ.inj h))

/-! ## What the stage keeps -/

section

variable {pool : List Id} {chunk : List MatchColumns}

/-- A chunk writes claims, results and nothing else. -/
theorem writeChunk_work {W : RowWrite → Prop} (ok : MatchColumns → Prop)
    (hclaim : ∀ c, W (.insertClaim c))
    (hresult : ∀ r : MatchResult, ok r.toMatchColumns → W (.insertResult r))
    (h : ∀ m ∈ chunk, ok m) : (writeChunk chunk).Work W :=
  Work.attempt (Work.bind (recordBatch_work ok hclaim hresult h) fun _ => work_pure _)
    fun _ => work_pure _

/-- Either the whole chunk is there, its statuses pending, or nothing is. -/
theorem writeChunk_workable {s : Session} (hpool : ∀ m ∈ chunk, m.internalTransactionId ∈ pool ∧
      m.externalTransactionId ∈ pool ∧ m.status ≠ .rejected)
    (h : Workable pool [] s.supply s.view) :
    (writeChunk chunk).wp
      (fun out s' => match out with
        | none => Workable pool [] s'.supply s'.view
        | some ids => ids.length = chunk.length ∧
          Workable pool (chunk.flatMap (·.marks)) s'.supply s'.view)
      (fun _ _ => False) s := by
  have hwork : ((fun out => some (out.1.map (·.id))) <$> recordBatch chunk).Work fun _ => True :=
    Work.bind (recordBatch_work (fun _ => True) (fun _ => trivial) (fun _ _ => trivial)
      fun _ _ => trivial) fun _ => work_pure _
  refine hwork.wp_attempt ?_
  rw [map_eq, wp_bind]
  have hbatch : (recordBatch chunk).Work fun _ => True :=
    recordBatch_work (fun _ => True) (fun _ => trivial) (fun _ _ => trivial) fun _ _ => trivial
  have hframe := hbatch.wp_frame s
  refine ((recordBatch_spec chunk s).and hframe).mono ?_ ?_
  · rintro ⟨rows, claims⟩ s' ⟨⟨hrows, hfree, hclaims, hview, hsupply⟩, -⟩
    dsimp only at hrows hfree hclaims hview hsupply
    subst hrows hclaims
    refine ⟨by rw [List.length_map, length_resultRows], ?_⟩
    have hmarks : (resultRows s.supply chunk).flatMap (fun r => r.marks) =
        chunk.flatMap (·.marks) := flatMap_resultRows MatchColumns.marks _ _
    rw [hview, hsupply, ← hmarks]
    refine (h.mono (Nat.le_add_right _ _)).batch (resultRows_nodup _ _) ?_ ?_ ?_ hfree ?_
    · intro r hr
      obtain ⟨-, hge, hlt⟩ := mem_resultRows hr
      refine ⟨Nat.lt_of_lt_of_le hlt (by omega), fun old hold => ?_⟩
      exact Nat.ne_of_lt (Nat.lt_of_lt_of_le (h.ledger.resultBelow old hold) hge)
    · rw [length_resultRows]
      omega
    · exact fun c hc => Nat.lt_of_lt_of_le (h.ledger.claimBelow c hc) (Nat.le_add_right _ _)
    · intro r hr
      exact hpool _ (mem_resultRows hr).1
  · rintro e s' ⟨-, hcommitted, hsupply, -⟩
    have hview : Store.Session.view { s' with log := s.log } = s.view := by
      simp only [Store.Session.view, hcommitted]
    refine wp_pure.mpr ?_
    rw [hview]
    exact h.mono hsupply

theorem writeOnes_work {W : RowWrite → Prop} (hclaim : ∀ c, W (.insertClaim c))
    (hset : ∀ c r, W (.claimResult c r)) :
    ∀ {ms : List MatchColumns}, (∀ m ∈ ms, ∀ id, W (.insertResult { m with id := id })) →
      (writeOnes ms).Work W
  | [], _ => work_pure _
  | m :: _, h => Work.bind (recordPair_work hclaim hset (h m List.mem_cons_self)) fun _ =>
      Work.bind (writeOnes_work hclaim hset fun m' hm' => h m' (List.mem_cons_of_mem m hm'))
        fun _ => work_pure _

/-- Pairs that are written one by one keep the pools workable. -/
theorem writeOnes_workable : ∀ {ms : List MatchColumns} {marks : List Id} {s : Session},
    (∀ m ∈ ms, m.internalTransactionId ∈ pool ∧ m.externalTransactionId ∈ pool ∧
      m.status ≠ .rejected) → Workable pool marks s.supply s.view →
    (writeOnes ms).wp
      (fun out s' => Workable pool (marks ++ writtenMarks (ms.zip out)) s'.supply s'.view)
      (fun _ _ => False) s
  | [], marks, s, _, h => by
    refine wp_pure.mpr ?_
    rw [List.zip_nil_left, writtenMarks, List.flatMap_nil, List.append_nil]
    exact h
  | m :: ms, marks, s, hpool, h => by
    obtain ⟨hi, he, hs⟩ := hpool m List.mem_cons_self
    have htail := fun m' hm' => hpool m' (List.mem_cons_of_mem m hm')
    refine wp_bind.mpr ((recordPair_workable h hi he hs).mono ?_ fun _ _ h => h)
    intro out s' h'
    have h' : Workable pool (marks ++ writtenMarks [(m, out)]) s'.supply s'.view := by
      cases out with
      | none => simpa [writtenMarks] using h'
      | some id => simpa [writtenMarks] using h'
    refine wp_bind.mpr ((writeOnes_workable htail h').mono ?_ fun _ _ h => h)
    intro rest s'' h''
    refine wp_pure.mpr ?_
    rw [List.zip_cons_cons, ← List.singleton_append, writtenMarks_append, ← List.append_assoc]
    exact h''

theorem writeItems_workable {s : Session} (hpool : ∀ m ∈ chunk, m.internalTransactionId ∈ pool ∧
      m.externalTransactionId ∈ pool ∧ m.status ≠ .rejected)
    (h : Workable pool [] s.supply s.view) :
    (writeItems chunk).wp
      (fun out s' => Workable pool (writtenMarks (chunk.zip out)) s'.supply s'.view)
      (fun _ _ => False) s := by
  refine wp_bind.mpr ((writeChunk_workable hpool h).mono ?_ fun _ _ h => h)
  rintro (_ | written) s' h'
  · exact writeOnes_workable hpool h'
  · obtain ⟨hlen, h'⟩ := h'
    refine wp_pure.mpr ?_
    rw [writtenMarks_all hlen]
    exact h'

theorem fuzzyChunk_work {W : RowWrite → Prop} (ok : MatchColumns → Prop)
    {outcome : FuzzyMatchOutcome} (hclaim : ∀ c, W (.insertClaim c))
    (hset : ∀ c r, W (.claimResult c r)) (hmark : ∀ t, W (.transactionStatus t .matched))
    (hresult : ∀ r : MatchResult, ok r.toMatchColumns → W (.insertResult r))
    (h : ∀ m ∈ chunk, ok m) : (fuzzyChunk outcome chunk).Work W := by
  refine Work.bind (Work.bind (writeChunk_work ok hclaim hresult h) fun out => ?_) fun written =>
    Work.bind (markAll_work hmark _) fun _ => work_pure _
  cases out with
  | some ids => exact work_pure _
  | none => exact writeOnes_work hclaim hset fun m hm id => hresult { m with id := id } (h m hm)

theorem fuzzyChunk_stage {ok : MatchColumns → Prop} {outcome : FuzzyMatchOutcome}
    (h : ∀ m ∈ chunk, ok m) : (fuzzyChunk outcome chunk).Work (LevelWrite ok) :=
  fuzzyChunk_work ok (fun _ => trivial) (fun _ _ => trivial) (fun _ => rfl) (fun _ hr => hr) h

theorem fuzzyChunk_workable {outcome : FuzzyMatchOutcome} {s : Session}
    (hpool : ∀ m ∈ chunk, m.internalTransactionId ∈ pool ∧ m.externalTransactionId ∈ pool ∧
      m.status ≠ .rejected) (h : Workable pool [] s.supply s.view) :
    (fuzzyChunk outcome chunk).wp (fun _ s' => Workable pool [] s'.supply s'.view)
      (fun _ _ => False) s := by
  refine wp_bind.mpr ((writeItems_workable hpool h).mono ?_ fun _ _ h => h)
  intro written s' h'
  rw [← List.append_nil (writtenMarks _)] at h'
  exact wp_bind.mpr ((markAll_workable h').mono (fun _ _ h => h) fun _ _ h => h)

end

/-- The stage keeps to the rejections. -/
theorem fuzzyRun_onPools {f : FuzzyStrategy} {internals externals : List NormalisedTransaction} :
    OnPools (·.matchGroupId = none) internals externals (fuzzyRun f internals externals) := by
  unfold fuzzyRun
  split
  · rename_i e _
    exact Or.inl ⟨e, rfl⟩
  · rename_i generator hg
    refine Or.inr ⟨_, rfl, fun rejected => ?_⟩
    split
    · exact work_fail _
    · rename_i chosen hchosen
      refine Work.foldlM _ _ fun outcome chunk hchunk => fuzzyChunk_stage fun m hm => ?_
      have hrow := fuzzyChoose_rows hg (fun _ h => h) hchosen m (mem_chunksOf hchunk hm)
      exact ⟨hrow.pair, hrow.stands, hrow.allowed⟩

theorem fuzzyRun_workable {f : FuzzyStrategy} {internals externals : List NormalisedTransaction}
    {s : Session} (h : Workable (ids internals ++ ids externals) [] s.supply s.view) :
    (fuzzyRun f internals externals).wp
      (fun _ s' => Workable (ids internals ++ ids externals) [] s'.supply s'.view)
      (fun _ _ => True) s := by
  unfold fuzzyRun
  split
  · trivial
  · rename_i generator hg
    rw [wp_levelOn]
    split
    · trivial
    · rename_i chosen hchosen
      refine wp_foldlM (I := fun _ s =>
        Workable (ids internals ++ ids externals) [] s.supply s.view) _ ?_ _ s h
      intro chunk hchunk outcome s' h'
      refine (fuzzyChunk_workable (fun m hm => ?_) h').mono (fun _ _ h => h) fun _ _ h => h.elim
      have hrow := fuzzyChoose_rows hg (fun _ h => h) hchosen m (mem_chunksOf hchunk hm)
      exact ⟨List.mem_append_left _ hrow.allowed.1, List.mem_append_right _ hrow.allowed.2.1,
        hrow.stands⟩

/-! ## Counting reviews -/

/-- The items of a chunk that are written for a review. -/
def reviewed (written : List (MatchColumns × Option Id)) : Nat :=
  written.countP fun p => p.2.isSome && p.1.status = .pendingReview

theorem reviewed_all : ∀ {chunk : List MatchColumns} {written : List Id},
    written.length = chunk.length →
    reviewed (chunk.zip (written.map some)) = chunk.countP (·.status = .pendingReview)
  | [], _, _ => rfl
  | m :: chunk, id :: written, h => by
    have ih := reviewed_all (Nat.succ.inj h)
    simp only [reviewed] at ih ⊢
    simp [List.countP_cons, ih]

/-- The outcome counts what is written for a review. -/
theorem count_reviewCount : ∀ {written : List (MatchColumns × Option Id)}
    {outcome : FuzzyMatchOutcome},
    (∀ p ∈ written, p.1.status = .autoMatched ∨ p.1.status = .pendingReview) →
    (written.foldl FuzzyMatchOutcome.count outcome).reviewCount =
      outcome.reviewCount + reviewed written
  | [], _, _ => rfl
  | (m, out) :: written, outcome, h => by
    rw [List.foldl_cons, count_reviewCount fun p hp => h p (List.mem_cons_of_mem _ hp)]
    have hhead := h (m, out) List.mem_cons_self
    simp only [reviewed, List.countP_cons]
    cases out with
    | none => simp [FuzzyMatchOutcome.count]
    | some id =>
      rcases hhead with hs | hs
      · simp [FuzzyMatchOutcome.count, show m.status = .autoMatched from hs]
      · simp [FuzzyMatchOutcome.count, show m.status = .pendingReview from hs]
        omega

section

variable {chunk : List MatchColumns} {k : Nat}

/-- A chunk puts as many results under review as it has such pairs. -/
theorem writeChunk_reviews {s : Session} (h : Reviews k s) :
    (writeChunk chunk).wp
      (fun out s' => match out with
        | none => Reviews k s'
        | some ids => ids.length = chunk.length ∧
          Reviews (k + chunk.countP (·.status = .pendingReview)) s')
      (fun _ _ => False) s := by
  have hbatch : (recordBatch chunk).Work fun _ => True :=
    recordBatch_work (fun _ => True) (fun _ => trivial) (fun _ _ => trivial) fun _ _ => trivial
  have hwork : ((fun out => some (out.1.map (·.id))) <$> recordBatch chunk).Work fun _ => True :=
    Work.bind hbatch fun _ => work_pure _
  refine hwork.wp_attempt ?_
  rw [map_eq, wp_bind]
  refine ((recordBatch_spec chunk s).and (hbatch.wp_frame s)).mono ?_ ?_
  · rintro ⟨rows, claims⟩ s' ⟨⟨hrows, -, hclaims, hview, hsupply⟩, -⟩
    dsimp only at hrows hclaims hview hsupply
    subst hrows hclaims
    have hcount : (resultRows s.supply chunk).countP (·.status = .pendingReview) =
        chunk.countP (·.status = .pendingReview) := by
      conv_rhs => rw [← List.map_id chunk, ← map_resultRows id s.supply chunk, List.countP_map]
      rfl
    refine ⟨by rw [List.length_map, length_resultRows], ?_⟩
    rw [← hcount]
    refine h.record (by omega) hview fun c hc => Nat.lt_of_lt_of_le (mem_claimRows hc).2.1 ?_
    rw [length_claimSides, length_resultRows]
    omega
  · rintro e s' ⟨-, hcommitted, hsupply, -⟩
    have hview : Store.Session.view { s' with log := s.log } = s.view := by
      simp only [Store.Session.view, hcommitted]
    refine wp_pure.mpr (h.of_same hsupply ?_ ?_)
    · rw [hview]
    · rw [hview]

theorem writeOnes_reviews : ∀ {ms : List MatchColumns} {k : Nat} {s : Session}, Reviews k s →
    (writeOnes ms).wp (fun out s' => Reviews (k + reviewed (ms.zip out)) s') (fun _ _ => False) s
  | [], _, _, h => h
  | m :: ms, k, s, h => by
    refine wp_bind.mpr ((recordPair_reviews h).mono ?_ fun _ _ h => h)
    intro out s' h'
    refine wp_bind.mpr ((writeOnes_reviews h').mono ?_ fun _ _ h => h)
    intro rest s'' h''
    refine wp_pure.mpr ?_
    rw [Nat.add_assoc] at h''
    have hcount : reviewed ((m, out) :: ms.zip rest) =
        (if out.isSome ∧ m.status = .pendingReview then 1 else 0) + reviewed (ms.zip rest) := by
      simp only [reviewed, List.countP_cons, Bool.and_eq_true, decide_eq_true_eq]
      omega
    rw [List.zip_cons_cons, hcount]
    exact h''

theorem writeItems_reviews {s : Session} (h : Reviews k s) :
    (writeItems chunk).wp (fun out s' => Reviews (k + reviewed (chunk.zip out)) s')
      (fun _ _ => False) s := by
  refine wp_bind.mpr ((writeChunk_reviews h).mono ?_ fun _ _ h => h)
  rintro (_ | written) s' h'
  · exact writeOnes_reviews h'
  · obtain ⟨hlen, h'⟩ := h'
    refine wp_pure.mpr ?_
    rw [reviewed_all hlen]
    exact h'

theorem fuzzyChunk_reviews {outcome : FuzzyMatchOutcome} {s : Session}
    (hstatus : ∀ m ∈ chunk, m.status = .autoMatched ∨ m.status = .pendingReview)
    (h : Reviews (k + outcome.reviewCount) s) :
    (fuzzyChunk outcome chunk).wp (fun out s' => Reviews (k + out.reviewCount) s')
      (fun _ _ => False) s := by
  refine wp_bind.mpr ((writeItems_reviews h).mono ?_ fun _ _ h => h)
  intro out s' h'
  refine wp_bind.mpr ((markAll_reviews h').mono ?_ fun _ _ h => h)
  intro _ s'' h''
  refine wp_pure.mpr ?_
  rw [count_reviewCount fun p hp => hstatus _ (List.of_mem_zip hp).1, ← Nat.add_assoc]
  exact h''

end

/-- The stage reports how many results it puts under review. -/
theorem fuzzyRun_reviews {f : FuzzyStrategy} {internals externals : List NormalisedTransaction}
    {s : Session} {k : Nat} (h : Reviews k s) :
    (fuzzyRun f internals externals).wp (fun out s' => Reviews (k + out.reviewCount) s')
      (fun _ _ => True) s := by
  unfold fuzzyRun
  split
  · trivial
  · rename_i generator hg
    rw [wp_levelOn]
    split
    · trivial
    · rename_i chosen hchosen
      refine wp_foldlM (I := fun (outcome : FuzzyMatchOutcome) s => Reviews (k + outcome.reviewCount) s)
        _ ?_ _ s h
      intro chunk hchunk outcome s' h'
      refine (fuzzyChunk_reviews (fun m hm => ?_) h').mono (fun _ _ h => h) fun _ _ h => h.elim
      exact (fuzzyChoose_rows hg (fun _ h => h) hchosen m (mem_chunksOf hchunk hm)).status

end Recon
