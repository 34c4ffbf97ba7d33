import ReconEngine.Matching.Record

/-!
# The matching tables up to identifiers

Two ways of writing the same matches draw different row identifiers. An `Outline` says what is in
the matching tables without naming them: a claim refers to its result by the place of the result
in the table. Offering a pair to an outline is the abstract form of writing it: the pair is
recorded where both of its sides are free, and is passed over otherwise.

**The laws** (`Db.outline_record`, `recordPair_outline`): new rows are appended to the outline, old
ones keep their places, and writing a pair offers it.

**What they do not establish.** That two stores with one outline are equal: they differ in
identifiers, and in the tables an outline leaves out.
-/

set_option autoImplicit false

namespace Recon

open Store.Prog hiding pure bind

/-- A claim by what it says; its result is named by its place. -/
structure ClaimOutline where
  transaction : Id
  role : ClaimRole
  status : ClaimStatus
  result : Option Nat
deriving DecidableEq, Repr

structure Outline where
  results : List MatchColumns
  claims : List ClaimOutline
  transactions : List NormalisedTransaction
deriving DecidableEq, Repr

/-- The place of the result with an identifier. -/
def Db.place (d : Db) (id : Id) : Option Nat := d.results.findIdx? (·.id == id)

def Db.claimOutline (d : Db) (c : MatchClaim) : ClaimOutline where
  transaction := c.normalisedTransactionId
  role := c.role
  status := c.status
  result := c.matchResultId.bind d.place

def Db.outline (d : Db) : Outline where
  results := d.results.map (·.toMatchColumns)
  claims := d.claims.map d.claimOutline
  transactions := d.transactions

/-- The identifiers of results, in their own table and in the claims, are used ones. -/
structure Placed (n : Nat) (d : Db) : Prop where
  resultBelow : ∀ r ∈ d.results, r.id < n
  linkBelow : ∀ c ∈ d.claims, ∀ r, c.matchResultId = some r → r < n

/-- The identifiers in the matching tables are used ones. -/
structure Identified (n : Nat) (d : Db) : Prop extends Placed n d where
  claimBelow : ∀ c ∈ d.claims, c.id < n

/-! ## Offering pairs -/

namespace Outline

variable (o : Outline) (m : MatchColumns)

def isClaimed (t : Id) : Bool := o.claims.any fun c => c.transaction == t && c.status == .active

/-- Neither side of the pair is claimed, and they are two transactions. -/
def free : Bool :=
  m.internalTransactionId != m.externalTransactionId &&
    !o.isClaimed m.internalTransactionId && !o.isClaimed m.externalTransactionId

/-- The outline with the pair and its two claims. -/
def record : Outline :=
  { o with
    results := o.results ++ [m]
    claims := o.claims ++
      [⟨m.internalTransactionId, .internal, .active, some o.results.length⟩,
        ⟨m.externalTransactionId, .external, .active, some o.results.length⟩] }

def offer : Outline := if o.free m then o.record m else o

/-- `out` says which of the pairs are recorded when they are offered in turn. -/
def Answers : Outline → List MatchColumns → List (Option Id) → Prop
  | _, [], [] => True
  | o, m :: ms, id :: out => id.isSome = o.free m ∧ (o.offer m).Answers ms out
  | _, _, _ => False

/-- The transactions in `ids` with the status MATCHED. -/
def mark (ids : List Id) : Outline :=
  { o with
    transactions := Store.updateIn (·.id) ids
      (fun t : NormalisedTransaction => { t with matchStatus := .matched }) o.transactions }

/-- Everything but how many candidates a pair was chosen from. -/
def uncounted : Outline := { o with results := o.results.map ({ · with candidateCount := 0 }) }

@[simp] theorem free_mark (ids : List Id) : (o.mark ids).free m = o.free m := rfl

/-- Statuses do not matter to an offer. -/
theorem offer_mark (ids : List Id) : (o.mark ids).offer m = (o.offer m).mark ids := by
  unfold offer
  rw [free_mark]
  split <;> rfl

theorem uncounted_record :
    (o.record m).uncounted = o.uncounted.record { m with candidateCount := 0 } := by
  simp only [record, uncounted, List.map_append, List.map_cons, List.map_nil, List.length_map]

theorem uncounted_mark (ids : List Id) : (o.mark ids).uncounted = o.uncounted.mark ids := rfl

theorem mark_mark (ids ids' : List Id) : (o.mark ids).mark ids' = o.mark (ids ++ ids') :=
  congrArg (fun ts => { o with transactions := ts })
    (Store.updateIn_updateIn (fun t : NormalisedTransaction => t.id) ids ids'
      (fun t => { t with matchStatus := .matched }) o.transactions (fun _ => rfl) fun _ => rfl)

@[simp] theorem mark_nil : o.mark [] = o := by
  simp only [mark, Store.updateIn_no_ids]

end Outline

/-! ## What the tables and their outline share -/

section

variable {n : Nat} {d : Db} {rs : List MatchResult} {cs : List MatchClaim}

/-- The outline shows what is claimed. -/
@[simp] theorem Db.outline_isClaimed (d : Db) (t : Id) : d.outline.isClaimed t = d.isClaimed t := by
  simp only [Outline.isClaimed, Db.outline, Db.isClaimed, List.any_map]
  rfl

theorem Db.free_iff_outline (d : Db) (m : MatchColumns) (result : Option Id) :
    d.Free (m.sides result) ↔ d.outline.free m = true := by
  simp only [Db.Free, MatchColumns.sides, Outline.free, Db.outline_isClaimed, List.map_cons,
    List.map_nil, List.nodup_cons, List.mem_singleton, List.not_mem_nil, not_false_eq_true,
    List.nodup_nil, and_true, List.forall_mem_cons, forall_eq, Bool.and_eq_true, bne_iff_ne, ne_eq,
    Bool.not_eq_true', and_assoc]

theorem Placed.mono {n' : Nat} (h : Placed n d) (hn : n ≤ n') : Placed n' d where
  resultBelow r hr := Nat.lt_of_lt_of_le (h.resultBelow r hr) hn
  linkBelow c hc r hr := Nat.lt_of_lt_of_le (h.linkBelow c hc r hr) hn

theorem Identified.mono {n' : Nat} (h : Identified n d) (hn : n ≤ n') : Identified n' d where
  toPlaced := h.toPlaced.mono hn
  claimBelow c hc := Nat.lt_of_lt_of_le (h.claimBelow c hc) hn

theorem Identified.setStatus (h : Identified n d) (ids : List Id) :
    Identified n (d.setStatus .matched ids) := ⟨⟨h.resultBelow, h.linkBelow⟩, h.claimBelow⟩

theorem Placed.record {n' : Nat} (h : Placed n d) (hn : n ≤ n') (hrs : ∀ r ∈ rs, r.id < n')
    (hlinks : ∀ c ∈ cs, ∀ r, c.matchResultId = some r → r < n') :
    Placed n' (d.record rs cs) where
  resultBelow r hr := (List.mem_append.mp hr).elim ((h.mono hn).resultBelow r) (hrs r)
  linkBelow c hc := (List.mem_append.mp hc).elim ((h.mono hn).linkBelow c) (hlinks c)

theorem Identified.record {n' : Nat} (h : Identified n d) (hn : n ≤ n') (hrs : ∀ r ∈ rs, r.id < n')
    (hcs : ∀ c ∈ cs, c.id < n') (hlinks : ∀ c ∈ cs, ∀ r, c.matchResultId = some r → r < n') :
    Identified n' (d.record rs cs) where
  toPlaced := h.toPlaced.record hn hrs hlinks
  claimBelow c hc := (List.mem_append.mp hc).elim ((h.mono hn).claimBelow c) (hcs c)

theorem link_claimRows {c : MatchClaim} : ∀ {k : Nat} {sides : List ClaimSide},
    c ∈ claimRows k sides → ∃ side ∈ sides, c.matchResultId = side.result
  | _, side :: _, h => by
    rcases List.mem_cons.mp h with rfl | h
    · exact ⟨side, List.mem_cons_self, rfl⟩
    · obtain ⟨side', hside, hlink⟩ := link_claimRows h
      exact ⟨side', List.mem_cons_of_mem _ hside, hlink⟩

theorem link_claimSides {rows : List MatchResult} {side : ClaimSide}
    (h : side ∈ claimSides rows) : ∃ r ∈ rows, side.result = some r.id := by
  obtain ⟨r, hr, hside⟩ := List.mem_flatMap.mp h
  simp only [List.mem_cons, List.not_mem_nil, or_false] at hside
  rcases hside with rfl | rfl
  · exact ⟨r, hr, rfl⟩
  · exact ⟨r, hr, rfl⟩

/-- The rows of several pairs with their claims. -/
theorem Identified.batch {first k n' : Nat} {ms : List MatchColumns} (h : Identified n d)
    (hn : n ≤ n') (hfirst : first + ms.length ≤ n') (hk : k + 2 * ms.length ≤ n') :
    Identified n' (d.record (resultRows first ms)
      (claimRows k (claimSides (resultRows first ms)))) := by
  apply h.record hn
  · intro r hr
    exact Nat.lt_of_lt_of_le (mem_resultRows hr).2.2 hfirst
  · intro c hc
    refine Nat.lt_of_lt_of_le (mem_claimRows hc).2.1 ?_
    rw [length_claimSides, length_resultRows]
    exact hk
  · intro c hc r hr
    obtain ⟨side, hside, hlink⟩ := link_claimRows hc
    obtain ⟨row, hrow, hid⟩ := link_claimSides hside
    rw [Option.some.inj ((hr.symm.trans hlink).trans hid)]
    exact Nat.lt_of_lt_of_le (mem_resultRows hrow).2.2 hfirst

/-- New results do not move the old ones. -/
theorem Db.place_record (hrs : ∀ r ∈ rs, n ≤ r.id) {id : Id} (hid : id < n) :
    (d.record rs cs).place id = d.place id := by
  have hnew : rs.findIdx? (·.id == id) = none := by
    rw [List.findIdx?_eq_none_iff]
    intro r hr
    simpa using Nat.ne_of_gt (Nat.lt_of_lt_of_le hid (hrs r hr))
  simp only [Db.place, Db.record, List.findIdx?_append, hnew, Option.map_none, Option.or_none]

/-- The outline of new rows is appended to that of the old ones. -/
theorem Db.outline_record (h : Placed n d) (hrs : ∀ r ∈ rs, n ≤ r.id) :
    (d.record rs cs).outline =
      { d.outline with
        results := d.outline.results ++ rs.map (·.toMatchColumns)
        claims := d.outline.claims ++ cs.map (d.record rs cs).claimOutline } := by
  have hold : d.claims.map (d.record rs cs).claimOutline = d.claims.map d.claimOutline := by
    apply List.map_congr_left
    intro c hc
    unfold Db.claimOutline
    cases hlink : c.matchResultId with
    | none => rfl
    | some r =>
      rw [Option.bind_some, Option.bind_some,
        Db.place_record hrs (h.linkBelow c hc r hlink)]
  have hresults : (d.record rs cs).results = d.results ++ rs := rfl
  have hclaims : (d.record rs cs).claims = d.claims ++ cs := rfl
  simp only [Db.outline, hresults, hclaims, List.map_append, hold]
  rfl

/-- The rows of a pair, with a new identifier. -/
theorem Db.outline_record_pair (h : Placed n d) {r : MatchResult} (hr : n ≤ r.id) (k : Nat) :
    (d.record [r] (claimRows k (r.sides (some r.id)))).outline =
      d.outline.record r.toMatchColumns := by
  have hplace : (d.record [r] (claimRows k (r.sides (some r.id)))).place r.id =
      some d.results.length := by
    have hnone : d.results.findIdx? (·.id == r.id) = none := by
      rw [List.findIdx?_eq_none_iff]
      intro old hold
      simpa using Nat.ne_of_lt (Nat.lt_of_lt_of_le (h.resultBelow old hold) hr)
    simp [Db.place, Db.record, List.findIdx?_append, hnone]
  rw [Db.outline_record h (by simpa using hr)]
  simp only [Outline.record, claimRows, MatchColumns.sides, List.map_cons, List.map_nil,
    Db.claimOutline, Option.bind_some] at hplace ⊢
  rw [hplace]
  simp only [Db.outline, List.length_map]

/-- The rows of several pairs whose sides are all free: each of them is offered and recorded. -/
theorem Db.outline_record_batch : ∀ {ms : List MatchColumns} {d : Db} {n first : Nat} (k : Nat),
    Placed n d → n ≤ first → d.Free (claimSides (resultRows first ms)) →
    (d.record (resultRows first ms) (claimRows k (claimSides (resultRows first ms)))).outline =
        ms.foldl Outline.offer d.outline ∧
      d.outline.Answers ms ((resultRows first ms).map fun r => some r.id)
  | [], d, n, first, k, _, _, _ => ⟨congrArg Db.outline (Db.record_nil d), trivial⟩
  | m :: ms, d, n, first, k, h, hn, hfree => by
    let r : MatchResult := { m with id := first }
    let ci : MatchClaim :=
      { id := k, normalisedTransactionId := r.internalTransactionId,
        matchResultId := some r.id, role := .internal, status := .active }
    let ce : MatchClaim :=
      { id := k + 1, normalisedTransactionId := r.externalTransactionId,
        matchResultId := some r.id, role := .external, status := .active }
    -- The first pair is free, and the others are once it is recorded.
    obtain ⟨hfi, hf⟩ := (d.free_cons _ _ ci rfl rfl).mp hfree
    obtain ⟨hfe, hrest⟩ := ((d.record [] [ci]).free_cons _ _ ce rfl rfl).mp hf
    rw [Db.record_record] at hrest
    have hpair : d.Free (r.sides none) := (d.free_cons _ _ ci rfl rfl).mpr
      ⟨hfi, List.nodup_singleton _, fun x hx => List.mem_singleton.mp hx ▸ hfe⟩
    have hpairFree : d.outline.free m = true := (d.free_iff_outline m none).mp hpair
    have hoffer : (d.record [r] [ci, ce]).outline = d.outline.offer m := by
      rw [Outline.offer, if_pos hpairFree]
      exact Db.outline_record_pair h (r := r) hn k
    have hplaced : Placed (first + 1) (d.record [r] [ci, ce]) := by
      apply h.record (Nat.le_succ_of_le hn)
      · intro x hx
        rw [List.mem_singleton.mp hx]
        exact Nat.lt_succ_self first
      · intro c hc id hid
        simp only [List.mem_cons, List.not_mem_nil, or_false] at hc
        rcases hc with rfl | rfl
        · exact Option.some.inj hid ▸ Nat.lt_succ_self first
        · exact Option.some.inj hid ▸ Nat.lt_succ_self first
    obtain ⟨hout, hanswers⟩ :=
      @Db.outline_record_batch ms _ _ _ (k + 2) hplaced (Nat.le_refl _) hrest
    rw [hoffer] at hout hanswers
    constructor
    · rw [List.foldl_cons, ← hout, Db.record_record]
      rfl
    · refine ⟨?_, hanswers⟩
      rw [hpairFree]
      rfl

end

/-! ## Writing by outlines -/

section

variable {s : Session}

/-- Writing a pair offers it. -/
theorem recordPair_outline (m : MatchColumns) (h : Identified s.supply s.view) :
    (recordPair m).wp
      (fun out s' => Identified s'.supply s'.view ∧ s'.view.outline = s.view.outline.offer m ∧
        out.isSome = s.view.outline.free m)
      (fun _ _ => False) s := by
  refine (recordPair_spec m s h.claimBelow).mono ?_ fun _ _ h => h
  rintro (_ | id) s' ⟨hsupply, hout⟩
  · obtain ⟨hfree, hview⟩ := hout
    have hno : s.view.outline.free m = false := by
      rw [s.view.free_iff_outline m none] at hfree
      simpa using hfree
    rw [hview, Outline.offer, hno]
    exact ⟨h.mono hsupply, rfl, rfl⟩
  · obtain ⟨hfree, rfl, hs, hview⟩ := hout
    have hyes := (s.view.free_iff_outline m none).mp hfree
    rw [hview, Outline.offer, hyes]
    refine ⟨?_, ?_, rfl⟩
    · apply h.record hsupply
      · intro r hr
        rw [List.mem_singleton.mp hr, hs]
        exact Nat.lt_succ_self _
      · intro c hc
        exact Nat.lt_of_lt_of_le (mem_claimRows hc).2.1 (hs ▸ Nat.le_succ _)
      · intro c hc r hr
        obtain ⟨side, hside, hlink⟩ := link_claimRows hc
        simp only [MatchColumns.sides, List.mem_cons, List.not_mem_nil, or_false] at hside
        have hid : r = s.supply + 2 := by
          rcases hside with rfl | rfl
          · exact Option.some.inj (hr.symm.trans hlink)
          · exact Option.some.inj (hr.symm.trans hlink)
        rw [hid, hs]
        exact Nat.lt_succ_self _
    · exact Db.outline_record_pair (r := { m with id := s.supply + 2 }) h.toPlaced
        (Nat.le_add_right _ _) _

/-- Statuses in the tables are statuses in the outline. -/
theorem markAll_outline (ts : List Id) (h : Identified s.supply s.view) :
    (markAll ts).wp
      (fun _ s' => Identified s'.supply s'.view ∧ s'.view.outline = s.view.outline.mark ts)
      (fun _ _ => False) s := by
  refine (markAll_spec ts s).mono ?_ fun _ _ h => h
  rintro _ s' ⟨hview, hsupply⟩
  rw [hview, hsupply]
  exact ⟨h.setStatus ts, rfl⟩

end

end Recon
