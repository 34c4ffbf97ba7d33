import ReconEngine.Matching.Fuzzy
import ReconEngine.Matching.Outline
import ReconEngine.Store.Handler

/-!
# Chunks and single pairs

The fuzzy stage writes its chosen pairs in chunks, and redoes a chunk pair by pair when one claim in
it conflicts. Up to identifiers this is the same as writing every pair on its own: both offer the
pairs in turn to the outline of the tables, and count what they did.

**The law** (`fuzzyChunks_tally`): for every list of choices and every table of claims, both ways of
writing leave the same outline and the same counts. The induction is over the chunks; a chunk that
conflicts is an induction over its pairs.

**What it does not establish.** That the row identifiers agree: a chunk that is given up has spent
some. Nor does it speak of the pace at which either way writes.
-/

set_option autoImplicit false

namespace Recon

open Store (chunksOf flatten_chunksOf)
open Store.Prog hiding pure bind

/-! ## Writing on its own -/

/-- One chosen pair on its own: its match, its statuses and its count. -/
def fuzzySingle (outcome : FuzzyMatchOutcome) (m : MatchColumns) : Prog FuzzyMatchOutcome := do
  let id ← recordPair m
  markAll (writtenMarks [(m, id)])
  return outcome.count (m, id)

/-! ## The tally -/

/-- The outline of the tables with the three counts of the stage. -/
structure Tally where
  outline : Outline
  autoMatched : Nat
  review : Nat
  conflicts : Nat
deriving DecidableEq, Repr

/-- A pair is recorded with its statuses where it is free, and counted either way. -/
def Tally.offer (t : Tally) (m : MatchColumns) : Tally :=
  if t.outline.free m then
    { outline := (t.outline.record m).mark m.marks
      autoMatched := t.autoMatched + if m.status = .autoMatched then 1 else 0
      review := t.review + if m.status = .autoMatched then 0 else 1
      conflicts := t.conflicts }
  else { t with conflicts := t.conflicts + 1 }

def FuzzyMatchOutcome.tally (outcome : FuzzyMatchOutcome) (o : Outline) : Tally where
  outline := o
  autoMatched := outcome.autoMatchedCount
  review := outcome.reviewCount
  conflicts := outcome.skippedClaimConflictCount

/-- Counting a pair that was answered is offering it. -/
theorem FuzzyMatchOutcome.tally_count {outcome : FuzzyMatchOutcome} {o : Outline} {m : MatchColumns}
    {id : Option Id} (h : id.isSome = o.free m) :
    (outcome.count (m, id)).tally ((o.offer m).mark (writtenMarks [(m, id)])) =
      (outcome.tally o).offer m := by
  cases id with
  | none =>
    have hno : o.free m = false := h.symm
    simp [FuzzyMatchOutcome.count, FuzzyMatchOutcome.tally, Tally.offer, Outline.offer, hno,
      writtenMarks]
  | some id =>
    have hyes : o.free m = true := h.symm
    by_cases hauto : m.status = .autoMatched
    · simp [FuzzyMatchOutcome.count, FuzzyMatchOutcome.tally, Tally.offer, Outline.offer, hyes,
        writtenMarks, hauto]
    · simp [FuzzyMatchOutcome.count, FuzzyMatchOutcome.tally, Tally.offer, Outline.offer, hyes,
        writtenMarks, hauto]

/-- Statuses that are written after all the pairs might as well be written after each of them. -/
theorem FuzzyMatchOutcome.tally_counts : ∀ {ms : List MatchColumns} {out : List (Option Id)}
    {outcome : FuzzyMatchOutcome} {o : Outline} (marks : List Id), o.Answers ms out →
    ((ms.zip out).foldl FuzzyMatchOutcome.count outcome).tally
        ((ms.foldl Outline.offer o).mark (marks ++ writtenMarks (ms.zip out))) =
      ms.foldl Tally.offer (outcome.tally (o.mark marks))
  | [], [], outcome, o, marks, _ => by
    rw [List.zip_nil_left, writtenMarks, List.flatMap_nil, List.append_nil]
    rfl
  | m :: ms, id :: out, outcome, o, marks, h => by
    obtain ⟨hid, hrest⟩ := h
    have hfirst := @tally_count outcome (o.mark marks) m id
      (hid.trans (Outline.free_mark o m marks).symm)
    rw [Outline.offer_mark, Outline.mark_mark] at hfirst
    have hlater := @tally_counts _ _ (outcome.count (m, id)) _
      (marks ++ writtenMarks [(m, id)]) hrest
    rw [List.zip_cons_cons, List.foldl_cons, List.foldl_cons, List.foldl_cons, ← hfirst, ← hlater,
      ← List.singleton_append, writtenMarks_append, ← List.append_assoc]

/-! ## Both ways of writing -/

section

variable {s : Session}

/-- A single pair is tallied as it is offered. -/
theorem fuzzySingle_tally (outcome : FuzzyMatchOutcome) (m : MatchColumns)
    (h : Identified s.supply s.view) :
    (fuzzySingle outcome m).wp
      (fun out s' => Identified s'.supply s'.view ∧
        out.tally s'.view.outline = (outcome.tally s.view.outline).offer m)
      (fun _ _ => False) s := by
  refine wp_bind.mpr ((recordPair_outline m h).mono ?_ fun _ _ h => h)
  rintro id s' ⟨hs', hoffer, hid⟩
  refine wp_bind.mpr ((markAll_outline (writtenMarks [(m, id)]) hs').mono ?_ fun _ _ h => h)
  rintro _ s'' ⟨hs'', hmark⟩
  refine ⟨hs'', ?_⟩
  rw [hmark, hoffer]
  exact FuzzyMatchOutcome.tally_count hid

/-- Pairs written one by one are offered one by one. -/
theorem writeOnes_outline : ∀ (ms : List MatchColumns) {s : Session}, Identified s.supply s.view →
    (writeOnes ms).wp
      (fun out s' => Identified s'.supply s'.view ∧
        s'.view.outline = ms.foldl Outline.offer s.view.outline ∧
        s.view.outline.Answers ms out)
      (fun _ _ => False) s
  | [], _, h => ⟨h, rfl, trivial⟩
  | m :: ms, s, h => by
    refine wp_bind.mpr ((recordPair_outline m h).mono ?_ fun _ _ h => h)
    rintro id s' ⟨hs', hoffer, hid⟩
    refine wp_bind.mpr ((writeOnes_outline ms hs').mono ?_ fun _ _ h => h)
    rintro rest s'' ⟨hs'', hrest, hanswers⟩
    rw [hoffer] at hrest hanswers
    exact ⟨hs'', hrest, hid, hanswers⟩

/-- A chunk that does not conflict records every pair; one that does leaves nothing behind. -/
theorem writeChunk_outline (chunk : List MatchColumns) (h : Identified s.supply s.view) :
    (writeChunk chunk).wp
      (fun out s' => Identified s'.supply s'.view ∧ match out with
        | none => s'.view = s.view
        | some ids => s'.view.outline = chunk.foldl Outline.offer s.view.outline ∧
          s.view.outline.Answers chunk (ids.map some))
      (fun _ _ => False) s := by
  have hbatch : (recordBatch chunk).Work fun _ => True :=
    recordBatch_work (fun _ => True) (fun _ => trivial) (fun _ _ => trivial) fun _ _ => trivial
  have hwork : ((fun out => some (out.1.map (·.id))) <$> recordBatch chunk).Work fun _ => True :=
    Work.bind hbatch fun _ => work_pure _
  apply hwork.wp_attempt
  rw [map_eq, wp_bind]
  refine ((recordBatch_spec chunk s).and (hbatch.wp_frame s)).mono ?_ ?_
  · rintro ⟨rows, claims⟩ s' ⟨⟨hrows, hfree, hclaims, hview, hsupply⟩, -⟩
    dsimp only at hrows hfree hclaims hview hsupply
    subst hrows hclaims
    obtain ⟨hout, hanswers⟩ := Db.outline_record_batch (s.supply + chunk.length) h.toPlaced
      (Nat.le_refl _) hfree
    refine ⟨?_, ?_, ?_⟩
    · rw [hview, hsupply]
      exact h.batch (Nat.le_add_right _ _) (by omega) (by omega)
    · rw [hview]
      exact hout
    · rw [List.map_map]
      exact hanswers
  · rintro e s' ⟨-, hcommitted, hsupply, -⟩
    have hview : Store.Session.view { s' with log := s.log } = s.view := by
      simp only [Store.Session.view, hcommitted]
    refine ⟨?_, hview⟩
    rw [hview]
    exact h.mono hsupply

/-- A chunk, too, comes to offering its pairs one by one. -/
theorem writeItems_outline (chunk : List MatchColumns) (h : Identified s.supply s.view) :
    (writeItems chunk).wp
      (fun out s' => Identified s'.supply s'.view ∧
        s'.view.outline = chunk.foldl Outline.offer s.view.outline ∧
        s.view.outline.Answers chunk out)
      (fun _ _ => False) s := by
  refine wp_bind.mpr ((writeChunk_outline chunk h).mono ?_ fun _ _ h => h)
  rintro (_ | ids) s' ⟨hs', hout⟩
  · dsimp only at hout ⊢
    rw [← hout]
    exact writeOnes_outline chunk hs'
  · exact ⟨hs', hout.1, hout.2⟩

theorem fuzzyChunk_tally (outcome : FuzzyMatchOutcome) (chunk : List MatchColumns)
    (h : Identified s.supply s.view) :
    (fuzzyChunk outcome chunk).wp
      (fun out s' => Identified s'.supply s'.view ∧
        out.tally s'.view.outline = chunk.foldl Tally.offer (outcome.tally s.view.outline))
      (fun _ _ => False) s := by
  refine wp_bind.mpr ((writeItems_outline chunk h).mono ?_ fun _ _ h => h)
  rintro out s' ⟨hs', hoffers, hanswers⟩
  refine wp_bind.mpr ((markAll_outline (writtenMarks (chunk.zip out)) hs').mono ?_ fun _ _ h => h)
  rintro _ s'' ⟨hs'', hmark⟩
  refine ⟨hs'', ?_⟩
  have hcounts := @FuzzyMatchOutcome.tally_counts _ _ outcome _ [] hanswers
  rw [List.nil_append, Outline.mark_nil] at hcounts
  rw [hmark, hoffers, hcounts]

/-- A loop whose turns each fold their item into the tally. -/
theorem foldlM_tally {ι : Type} {body : FuzzyMatchOutcome → ι → Prog FuzzyMatchOutcome}
    {step : Tally → ι → Tally} :
    ∀ (items : List ι), (∀ i ∈ items, ∀ (outcome : FuzzyMatchOutcome) (s : Session),
        Identified s.supply s.view → (body outcome i).wp
          (fun out s' => Identified s'.supply s'.view ∧
            out.tally s'.view.outline = step (outcome.tally s.view.outline) i)
          (fun _ _ => False) s) →
      ∀ (outcome : FuzzyMatchOutcome) {s : Session}, Identified s.supply s.view →
        (items.foldlM body outcome).wp
          (fun out s' => out.tally s'.view.outline =
            items.foldl step (outcome.tally s.view.outline))
          (fun _ _ => False) s
  | [], _, _, _, _ => rfl
  | i :: items, turn, outcome, s, h => by
    rw [List.foldlM_cons, bind_eq, wp_bind]
    refine (turn i List.mem_cons_self outcome s h).mono ?_ fun _ _ h => h
    rintro out s' ⟨hs', htally⟩
    rw [List.foldl_cons, ← htally]
    exact foldlM_tally items (fun j hj => turn j (List.mem_cons_of_mem i hj)) out hs'

end

/-- **Chunks write what single pairs write.** Whatever claims are there, the chunked writer and the
writer of single pairs both end, with the same results, claims and statuses up to identifiers and
with the same counts. -/
theorem fuzzyChunks_tally (chosen : List MatchColumns) (s : Session)
    (h : Identified s.supply s.view) :
    ∃ out s₁ out' s₂,
      ((chunksOf writeChunkSize chosen).foldlM fuzzyChunk {}).exec s = (.ok out, s₁) ∧
        (chosen.foldlM fuzzySingle {}).exec s = (.ok out', s₂) ∧
        s₁.view.outline = s₂.view.outline ∧
        out.autoMatchedCount = out'.autoMatchedCount ∧ out.reviewCount = out'.reviewCount ∧
        out.skippedClaimConflictCount = out'.skippedClaimConflictCount := by
  obtain ⟨out, s₁, hexec, htally⟩ := (foldlM_tally (chunksOf writeChunkSize chosen)
    (fun chunk _ outcome _ hs => fuzzyChunk_tally outcome chunk hs) {} h).succeeds
  obtain ⟨out', s₂, hexec', htally'⟩ := (foldlM_tally chosen
    (fun m _ outcome _ hs => fuzzySingle_tally outcome m hs) {} h).succeeds
  have hsame : out.tally s₁.view.outline = out'.tally s₂.view.outline := by
    rw [htally, htally', ← List.foldl_flatten, flatten_chunksOf (by decide)]
  simp only [FuzzyMatchOutcome.tally, Tally.mk.injEq] at hsame
  exact ⟨out, s₁, out', s₂, hexec, hexec', hsame⟩

/-- A pair of the fuzzy stage that is matched automatically. -/
def chosenPair (internal external : Id) : MatchColumns where
  runId := .run 0
  matchType := .fuzzy
  status := .autoMatched
  confidence := 900
  internalTransactionId := internal
  externalTransactionId := external
  candidateCount := 1
  matchedOnDate := 0

/-- A store in which the third transaction is claimed already. -/
def claimedStore : Session where
  committed := { claims := [⟨9, 3, none, .internal, .active⟩] }
  supply := 10

theorem fuzzyChunks_tally_claimed : Identified claimedStore.supply claimedStore.view ∧
    ∃ out s₁ out' s₂,
      ((chunksOf writeChunkSize [chosenPair 1 2, chosenPair 3 4]).foldlM fuzzyChunk {}).exec
          claimedStore = (.ok out, s₁) ∧
        ([chosenPair 1 2, chosenPair 3 4].foldlM fuzzySingle {}).exec claimedStore =
          (.ok out', s₂) ∧
        s₁.view.outline = s₂.view.outline ∧
        out.autoMatchedCount = out'.autoMatchedCount ∧ out.reviewCount = out'.reviewCount ∧
        out.skippedClaimConflictCount = out'.skippedClaimConflictCount := by
  have hidentified : Identified claimedStore.supply claimedStore.view :=
    ⟨⟨by decide, by decide⟩, by decide⟩
  exact ⟨hidentified, fuzzyChunks_tally [chosenPair 1 2, chosenPair 3 4] claimedStore hidentified⟩

end Recon
