import Mathlib.Data.List.Forall2
import ReconEngine.Matching.Group

/-!
# What a stretch of matching changes

Between two points of a run of levels, with no other writer, results are added, transactions become
MATCHED and claims are added; nothing is taken away. So a later pool is a part of an earlier one,
and the externals of the first pool divide exactly into those that were matched, those that were
put under review and those that are still in the pool.

**The law** (`externals_divide`): the last sentence, for any stretch of levels. It is proved from
what a write of a level may do, so that a new stage needs no new argument.

**What it does not establish.** What happens when a person decides between two levels; the stretch
has one writer.
-/

set_option autoImplicit false

namespace Recon

open Store.Prog hiding pure bind

/-! ## Advancing -/

/-- The row is as it was, or it has become MATCHED. -/
def NormalisedTransaction.Becomes (t t' : NormalisedTransaction) : Prop :=
  t' = t ∨ t' = { t with matchStatus := .matched }

/-- `d'` has the results `new` more than `d`, and no transaction or claim was lost. -/
structure Db.Advanced (d d' : Db) (new : List MatchResult) : Prop where
  results : d'.results = d.results ++ new
  transactions : List.Forall₂ NormalisedTransaction.Becomes d.transactions d'.transactions
  claims : ∀ t, d.isClaimed t = true → d'.isClaimed t = true

namespace Db.Advanced

variable {d d' d'' : Db} {new new' : List MatchResult}

theorem refl (d : Db) : d.Advanced d [] where
  results := (List.append_nil _).symm
  transactions := List.forall₂_same.mpr fun _ _ => Or.inl rfl
  claims _ h := h

theorem trans (h : d.Advanced d' new) (h' : d'.Advanced d'' new') :
    d.Advanced d'' (new ++ new') where
  results := by
    rw [h'.results, h.results, List.append_assoc]
  transactions := by
    have hcomp : ∀ {ts ts' ts'' : List NormalisedTransaction},
        List.Forall₂ NormalisedTransaction.Becomes ts ts' →
        List.Forall₂ NormalisedTransaction.Becomes ts' ts'' →
        List.Forall₂ NormalisedTransaction.Becomes ts ts'' := by
      intro ts ts' ts'' hfirst
      induction hfirst generalizing ts'' with
      | nil => exact fun hsecond => hsecond
      | cons hrow _ ih =>
        intro hsecond
        cases hsecond with
        | cons hrow' hrest =>
          refine List.Forall₂.cons ?_ (ih hrest)
          rcases hrow' with rfl | rfl
          · exact hrow
          · rcases hrow with rfl | rfl
            · exact Or.inr rfl
            · exact Or.inr rfl
    exact hcomp h.transactions h'.transactions
  claims t ht := h'.claims t (h.claims t ht)

/-- Statuses are written. -/
theorem setStatus (d : Db) (ids : List Id) : d.Advanced (d.setStatus .matched ids) [] where
  results := (List.append_nil _).symm
  transactions := by
    refine List.forall₂_map_right_iff.mpr (List.forall₂_same.mpr fun t _ => ?_)
    by_cases hid : t.id ∈ ids
    · exact Or.inr (if_pos hid)
    · exact Or.inl (if_neg hid)
  claims _ h := h

/-- Results and claims are added. -/
theorem record (d : Db) (rs : List MatchResult) (cs : List MatchClaim) :
    d.Advanced (d.record rs cs) rs where
  results := rfl
  transactions := List.forall₂_same.mpr fun _ _ => Or.inl rfl
  claims t h := by
    simp only [Db.isClaimed, Db.record, List.any_append] at h ⊢
    rw [h, Bool.true_or]

/-- The result of a claim is filled in. -/
theorem claimResult (d : Db) (claim result : Id) :
    d.Advanced ((RowWrite.claimResult claim result).apply d) [] where
  results := (List.append_nil _).symm
  transactions := List.forall₂_same.mpr fun _ _ => Or.inl rfl
  claims t h := by
    obtain ⟨c, hc, ha, ht⟩ := Db.isClaimed_eq_true.mp h
    refine Db.isClaimed_eq_true.mpr ⟨_, List.mem_map_of_mem hc, ?_⟩
    split
    · exact ⟨ha, ht⟩
    · exact ⟨ha, ht⟩

/-- A write of a level. -/
theorem write {ok : MatchColumns → Prop} {w : RowWrite} (hw : LevelWrite ok w) (d : Db) :
    ∃ new, d.Advanced (w.apply d) new ∧ ∀ r ∈ new, ok r.toMatchColumns := by
  have hnone : ∀ r ∈ ([] : List MatchResult), ok r.toMatchColumns :=
    fun _ h => absurd h List.not_mem_nil
  cases w with
  | insertResult r =>
    refine ⟨[r], ⟨rfl, (refl d).transactions, fun _ h => h⟩, fun x hx => ?_⟩
    rw [List.mem_singleton.mp hx]
    exact hw
  | insertClaim c =>
    refine ⟨[], ⟨(refl d).results, (refl d).transactions, ?_⟩, hnone⟩
    exact (record d [] [c]).claims
  | claimResult claim result => exact ⟨[], claimResult d claim result, hnone⟩
  | transactionStatus t status =>
    obtain rfl : status = .matched := hw
    exact ⟨[], setStatus d [t], hnone⟩
  | insertAudit row => exact ⟨[], ⟨(refl d).results, (refl d).transactions, fun _ h => h⟩, hnone⟩
  | _ => exact hw.elim

theorem replay {ok : MatchColumns → Prop} : ∀ (ws : List RowWrite) (d : Db),
    (∀ w ∈ ws, LevelWrite ok w) →
      ∃ new, d.Advanced (schema.replay ws d) new ∧ ∀ r ∈ new, ok r.toMatchColumns
  | [], d, _ => ⟨[], refl d, fun _ h => absurd h List.not_mem_nil⟩
  | w :: ws, d, h => by
    obtain ⟨new, hadvanced, hok⟩ := write (h w List.mem_cons_self) d
    obtain ⟨new', hadvanced', hok'⟩ :=
      replay ws (w.apply d) fun w' hw' => h w' (List.mem_cons_of_mem w hw')
    refine ⟨new ++ new', hadvanced.trans hadvanced', fun r hr => ?_⟩
    rcases List.mem_append.mp hr with hr | hr
    · exact hok r hr
    · exact hok' r hr

end Db.Advanced

/-- A program with the writes of a level only advances. -/
theorem advances {α : Type} {ok : MatchColumns → Prop} {p : Prog α} (h : p.Work (LevelWrite ok))
    (s : Session) :
    p.wp (fun _ s' => s.supply ≤ s'.supply ∧
        ∃ new, s.view.Advanced s'.view new ∧ ∀ r ∈ new, ok r.toMatchColumns)
      (fun _ _ => True) s := by
  refine (h.wp_frame s).mono ?_ fun _ _ _ => trivial
  rintro _ s' ⟨hcommitted, hsupply, ws, hlog, hws⟩
  have hview : s'.view = schema.replay ws s.view := by
    rw [Store.Session.view, Store.Session.view, hcommitted, hlog, Store.Schema.replay_append]
  exact ⟨hsupply, hview ▸ Db.Advanced.replay ws s.view hws⟩

/-! ## Pools only shrink -/

namespace Db.Advanced

variable {d d' : Db} {new : List MatchResult} {bankCode : String} {source : Source}
  {range : DateRange}

/-- A row was there before, perhaps with another status. -/
theorem row_before (h : d.Advanced d' new) {t' : NormalisedTransaction}
    (ht' : t' ∈ d'.transactions) : ∃ t ∈ d.transactions, t.Becomes t' :=
  Store.forall₂_right h.transactions t' ht'

/-- A row is still there, perhaps with another status. -/
theorem row_after (h : d.Advanced d' new) {t : NormalisedTransaction}
    (ht : t ∈ d.transactions) : ∃ t' ∈ d'.transactions, t.Becomes t' :=
  Store.forall₂_right h.transactions.flip t ht

/-- What is unclaimed later was unclaimed before. -/
theorem isClaimed_before (h : d.Advanced d' new) {t : Id} (ht : d'.isClaimed t = false) :
    d.isClaimed t = false := by
  rw [← Bool.not_eq_true]
  intro hclaimed
  rw [h.claims t hclaimed] at ht
  cases ht

/-- Every transaction of the later pool is one of the earlier pool, with the same row. -/
theorem findUnmatched (h : d.Advanced d' new) {t : NormalisedTransaction}
    (ht : t ∈ d'.findUnmatched bankCode source range) :
    t ∈ d.findUnmatched bankCode source range := by
  obtain ⟨hmem, hav⟩ := Db.mem_findUnmatched.mp ht
  obtain ⟨hbank, hsource, hstatus, hfree, hrange⟩ := Db.available_iff.mp hav
  obtain ⟨old, hold, rfl | rfl⟩ := h.row_before hmem
  · exact Db.mem_findUnmatched.mpr ⟨hold, Db.available_iff.mpr
      ⟨hbank, hsource, hstatus, h.isClaimed_before hfree, hrange⟩⟩
  · cases hstatus

theorem ids_findUnmatched (h : d.Advanced d' new) {t : Id}
    (ht : t ∈ ids (d'.findUnmatched bankCode source range)) :
    t ∈ ids (d.findUnmatched bankCode source range) := by
  obtain ⟨row, hrow, rfl⟩ := List.mem_map.mp ht
  exact List.mem_map_of_mem (h.findUnmatched hrow)

end Db.Advanced

/-! ## The results of a run -/

/-- The pools that a run starts with contain the two sides of the row, and it is not REJECTED. -/
def FromPools (d : Db) (bankCode : String) (range : DateRange) (m : MatchColumns) : Prop :=
  m.status ≠ .rejected ∧ m.internalTransactionId ∈ ids (d.findUnmatched bankCode .internal range) ∧
    m.externalTransactionId ∈ ids (d.findUnmatched bankCode .external range)

/-- No transaction is used twice, but as the single side of one group: rows that share a
transaction are of one stage and one group, and all rows of the group have it on the same side. -/
def UsedOnce (rs : List MatchResult) : Prop :=
  ∀ r ∈ rs, ∀ r' ∈ rs, r ≠ r' → ∀ t, r.Side t → r'.Side t →
    r.matchType = r'.matchType ∧ ∃ g, r.matchGroupId = some g ∧ r'.matchGroupId = some g ∧
      ((∀ x ∈ rs, x.matchGroupId = some g → x.internalTransactionId = t) ∨
        ∀ x ∈ rs, x.matchGroupId = some g → x.externalTransactionId = t)

/-- Each transaction holds a claim of at most one match. -/
theorem Ledger.sameMatch {n : Nat} {d : Db} (h : Ledger n d) {r r' : MatchResult} (hr : r ∈ d.results)
    (hr' : r' ∈ d.results) (hs : r.status ≠ .rejected) (hs' : r'.status ≠ .rejected) {t : Id}
    (ht : r.Side t) (ht' : r'.Side t) : r.SameMatch r' := by
  have hholds : ∀ x ∈ d.results, x.status ≠ .rejected → x.Side t →
      ∃ y, d.Holds t y ∧ y.SameMatch x := by
    intro x hx hne hside
    rcases x.status_cases with hset | hpending | hrejected
    · obtain ⟨y, hy, -, hsame⟩ := h.covered x hx hset t hside
      exact ⟨y, hy, hsame⟩
    · exact ⟨x, (h.parked x hx hpending).2 t hside, Or.inl rfl⟩
    · exact absurd hrejected hne
  obtain ⟨y, hy, hyr⟩ := hholds r hr hs ht
  obtain ⟨y', hy', hyr'⟩ := hholds r' hr' hs' ht'
  obtain rfl := h.holds_unique hy hy'
  exact hyr.symm.trans hyr'

/-- New results whose groups share one side use every transaction once. -/
theorem Ledger.usedOnce {n : Nat} {d : Db} (h : Ledger n d) {rs : List MatchResult}
    (hrs : ∀ r ∈ rs, r ∈ d.results ∧ r.status ≠ .rejected) (hsided : OneSided rs) : UsedOnce rs := by
  intro r hr r' hr' hne t ht ht'
  obtain ⟨hmem, hs⟩ := hrs r hr
  obtain ⟨hmem', hs'⟩ := hrs r' hr'
  rcases h.sameMatch hmem hmem' hs hs' ht ht' with heq | ⟨hsome, hg⟩
  · exact absurd heq hne
  obtain ⟨g, hrg⟩ := Option.ne_none_iff_exists'.mp hsome
  have hrg' : r'.matchGroupId = some g := hg.symm.trans hrg
  obtain ⟨kind, single, htype, hsingle, hmembers⟩ := hsided g
  have hin : ∀ {x}, x ∈ rs → x.matchGroupId = some g →
      x ∈ rs.filter (·.matchGroupId = some g) := fun hx hxg =>
    List.mem_filter.mpr ⟨hx, decide_eq_true hxg⟩
  refine ⟨(htype r (hin hr hrg)).trans (htype r' (hin hr' hrg')).symm, g, hrg, hrg', ?_⟩
  -- Members are different, so what two rows share is the single side.
  have hsame : kind.memberOf r.toMatchColumns ≠ kind.memberOf r'.toMatchColumns := fun heq =>
    hne (List.inj_on_of_nodup_map hmembers (hin hr hrg) (hin hr' hrg') heq)
  have hr₁ := hsingle r (hin hr hrg)
  have hr₂ := hsingle r' (hin hr' hrg')
  have hall : t = single → ∀ x ∈ rs, x.matchGroupId = some g →
      kind.singleOf x.toMatchColumns = t := fun heq x hx hxg => (hsingle x (hin hx hxg)).trans heq.symm
  cases kind with
  | split =>
    refine Or.inl (hall ?_)
    rcases ht with ht | ht
    · exact ht.trans hr₁
    · rcases ht' with ht' | ht'
      · exact ht'.trans hr₂
      · exact absurd (ht.symm.trans ht') hsame
  | netted =>
    refine Or.inr (hall ?_)
    rcases ht with ht | ht
    · rcases ht' with ht' | ht'
      · exact absurd (ht.symm.trans ht') hsame
      · exact ht'.trans hr₂
    · exact ht.trans hr₁

/-! ## The externals of a run -/

/-- The externals that are MATCHED in `d'` and were not in `d`. -/
def turnedMatched (d d' : Db) : List Id :=
  ids (d'.transactions.filter fun t => t.source = .external ∧ t.matchStatus = .matched ∧
    ∀ old ∈ d.transactions, old.id = t.id → old.matchStatus ≠ .matched)

/-- The externals of the rows that wait for a review. -/
def reviewedExternals (rs : List MatchResult) : List Id :=
  (rs.filter (·.status = .pendingReview)).map (·.externalTransactionId)

section

variable {n n' : Nat} {d d' : Db} {new : List MatchResult} {bankCode : String} {range : DateRange}

/-- An external side of a pool is not an internal one. -/
theorem external_side (h : Ledger n d) {m : MatchColumns} (hm : FromPools d bankCode range m)
    {t : NormalisedTransaction} (ht : t ∈ d.transactions) (hsource : t.source = .external)
    (hside : t.id = m.internalTransactionId ∨ t.id = m.externalTransactionId) :
    t.id = m.externalTransactionId := by
  rcases hside with hi | he
  · obtain ⟨row, hrow, hid⟩ := List.mem_map.mp hm.2.1
    obtain ⟨hmem, hav⟩ := Db.mem_findUnmatched.mp hrow
    obtain rfl := h.transaction_eq hmem ht (hid.trans hi.symm)
    have := (Db.available_iff.mp hav).2.1
    rw [hsource] at this
    cases this
  · exact he

/-- A side of a match that was not rejected is claimed. -/
theorem Ledger.claimed_of_side (h : Ledger n d) {r : MatchResult} (hr : r ∈ d.results)
    (hs : r.status ≠ .rejected) {t : Id} (ht : r.Side t) : d.isClaimed t = true := by
  rcases r.status_cases with hset | hpending | hrejected
  · obtain ⟨y, hy, -, -⟩ := h.covered r hr hset t ht
    exact hy.isClaimed
  · exact ((h.parked r hr hpending).2 t ht).isClaimed
  · exact absurd hrejected hs

/-- An external that becomes MATCHED is a side of a new match that stands. -/
theorem mem_turnedMatched (h : Ledger n d) (h' : Ledger n' d') (hadv : d.Advanced d' new)
    (hnew : ∀ r ∈ new, FromPools d bankCode range r.toMatchColumns) {t : Id}
    (ht : t ∈ turnedMatched d d') :
    ∃ r ∈ new, d'.Holds t r ∧ r.Settled ∧ t = r.externalTransactionId := by
  obtain ⟨row, hrow, rfl⟩ := List.mem_map.mp ht
  obtain ⟨hmem, hcond⟩ := List.mem_filter.mp hrow
  obtain ⟨hsource, hstatus, hbefore⟩ := of_decide_eq_true hcond
  obtain ⟨r, hholds, hset⟩ := (h'.matched row hmem).mp hstatus
  obtain ⟨-, hside⟩ := h'.side_of_holds hholds
  obtain ⟨old, hold, hbecomes⟩ := hadv.row_before hmem
  have hid : row.id = old.id := by rcases hbecomes with rfl | rfl <;> rfl
  have holdSource : old.source = .external := by
    rcases hbecomes with rfl | rfl
    · exact hsource
    · exact hsource
  have hr : r ∈ d.results ∨ r ∈ new := List.mem_append.mp (hadv.results ▸ hholds.1)
  rcases hr with hr | hr
  · -- A match that stood before had its externals MATCHED before.
    obtain ⟨y, hy, hyset, -⟩ := h.covered r hr hset row.id hside
    exact absurd ((h.matched old hold).mpr ⟨y, hid ▸ hy, hyset⟩) (hbefore old hold hid.symm)
  · refine ⟨r, hr, hholds, hset, ?_⟩
    rw [hid] at hside ⊢
    exact external_side h (hnew r hr) hold holdSource hside

/-- The externals of the first pool are those that were matched, those that were put under review
and those that are still in the pool. -/
theorem externals_divide (h : Ledger n d) (h' : Ledger n' d') (hadv : d.Advanced d' new)
    (hnew : ∀ r ∈ new, FromPools d bankCode range r.toMatchColumns) :
    (ids (d.findUnmatched bankCode .external range)).Perm
      (turnedMatched d d' ++ reviewedExternals new ++
        ids (d'.findUnmatched bankCode .external range)) := by
  have hmem : ∀ r ∈ new, r ∈ d'.results := fun r hr =>
    hadv.results ▸ List.mem_append_right _ hr
  have hparked : ∀ t ∈ reviewedExternals new, ∃ r ∈ new, d'.Holds t r ∧
      r.status = .pendingReview ∧ t = r.externalTransactionId := by
    intro t ht
    obtain ⟨r, hr, rfl⟩ := List.mem_map.mp ht
    obtain ⟨hin, hs⟩ := List.mem_filter.mp hr
    exact ⟨r, hin, (h'.parked r (hmem r hin) (of_decide_eq_true hs)).2 _ (Or.inr rfl),
      of_decide_eq_true hs, rfl⟩
  have hpool : ∀ t ∈ ids (d'.findUnmatched bankCode .external range),
      ∃ row ∈ d'.transactions, row.id = t ∧ row.matchStatus = .unmatched ∧
        d'.isClaimed t = false := by
    intro t ht
    obtain ⟨row, hrow, rfl⟩ := List.mem_map.mp ht
    obtain ⟨hin, hav⟩ := Db.mem_findUnmatched.mp hrow
    obtain ⟨-, -, hstatus, hfree, -⟩ := Db.available_iff.mp hav
    exact ⟨row, hin, rfl, hstatus, hfree⟩
  refine (List.perm_ext_iff_of_nodup (findUnmatched_nodup _ _ h.transactionIds _) ?_).mpr fun t => ?_
  · refine List.nodup_append.mpr ⟨List.nodup_append.mpr ⟨?_, ?_, ?_⟩,
      findUnmatched_nodup _ _ h'.transactionIds _, ?_⟩
    · exact h'.transactionIds.sublist (List.filter_sublist.map _)
    · have hnodup : new.Nodup :=
        (List.nodup_append.mp (hadv.results ▸ List.Nodup.of_map _ h'.resultIds)).2.1
      refine List.Nodup.map_on (fun r hr r' hr' heq => ?_) (hnodup.filter _)
      obtain ⟨hin, hs⟩ := List.mem_filter.mp hr
      obtain ⟨hin', hs'⟩ := List.mem_filter.mp hr'
      have hr₁ := (h'.parked r (hmem r hin) (of_decide_eq_true hs)).2 _ (Or.inr rfl)
      have hr₂ := (h'.parked r' (hmem r' hin') (of_decide_eq_true hs')).2 _ (Or.inr rfl)
      exact h'.holds_unique hr₁ (heq ▸ hr₂)
    · rintro t ht _ ht' rfl
      obtain ⟨r, -, hr, hset, -⟩ := mem_turnedMatched h h' hadv hnew ht
      obtain ⟨r', -, hr', hpending, -⟩ := hparked t ht'
      exact hset.ne_pending (h'.holds_unique hr hr' ▸ hpending)
    · rintro t ht _ ht' rfl
      obtain ⟨-, -, -, -, hfree⟩ := hpool t ht'
      rcases List.mem_append.mp ht with ht | ht
      · obtain ⟨r, -, hr, -⟩ := mem_turnedMatched h h' hadv hnew ht
        rw [hr.isClaimed] at hfree
        cases hfree
      · obtain ⟨r, -, hr, -⟩ := hparked t ht
        rw [hr.isClaimed] at hfree
        cases hfree
  · rw [List.mem_append, List.mem_append]
    constructor
    · intro ht
      obtain ⟨row, hrow, rfl⟩ := List.mem_map.mp ht
      obtain ⟨hin, hav⟩ := Db.mem_findUnmatched.mp hrow
      obtain ⟨hbank, hsource, hstatus, hfree, hrange⟩ := Db.available_iff.mp hav
      obtain ⟨row', hin', hbecomes⟩ := hadv.row_after hin
      by_cases hclaimed : d'.isClaimed row.id = true
      · obtain ⟨r, hr, hs, hside⟩ := h'.holds_of_isClaimed hclaimed
        have hrnew : r ∈ new := by
          rcases List.mem_append.mp (hadv.results ▸ hr.1) with hold | hrnew
          · rw [h.claimed_of_side hold hs hside] at hfree
            cases hfree
          · exact hrnew
        have hext := external_side h (hnew r hrnew) hin hsource hside
        rcases r.status_cases with hset | hpending | hrejected
        · refine Or.inl (Or.inl (List.mem_map.mpr ⟨row', List.mem_filter.mpr ⟨hin', ?_⟩, ?_⟩))
          · have hid : row'.id = row.id := by rcases hbecomes with rfl | rfl <;> rfl
            refine decide_eq_true ⟨?_, (h'.matched row' hin').mpr ⟨r, hid ▸ hr, hset⟩, ?_⟩
            · rcases hbecomes with rfl | rfl
              · exact hsource
              · exact hsource
            · intro old hold heq hmatched
              obtain rfl := h.transaction_eq hold hin (heq.trans hid)
              rw [hstatus] at hmatched
              cases hmatched
          · rcases hbecomes with rfl | rfl <;> rfl
        · refine Or.inl (Or.inr (List.mem_map.mpr ⟨r, ?_, hext.symm⟩))
          exact List.mem_filter.mpr ⟨hrnew, decide_eq_true hpending⟩
        · exact absurd hrejected hs
      · rw [Bool.not_eq_true] at hclaimed
        refine Or.inr (List.mem_map.mpr ⟨row, Db.mem_findUnmatched.mpr ⟨?_, ?_⟩, rfl⟩)
        · rcases hbecomes with rfl | rfl
          · exact hin'
          · obtain ⟨r, hr, -⟩ := (h'.matched _ hin').mp rfl
            have hheld := hr.isClaimed
            rw [hclaimed] at hheld
            cases hheld
        · exact Db.available_iff.mpr ⟨hbank, hsource, hstatus, hclaimed, hrange⟩
    · rintro ((ht | ht) | ht)
      · obtain ⟨r, hr, -, -, rfl⟩ := mem_turnedMatched h h' hadv hnew ht
        exact (hnew r hr).2.2
      · obtain ⟨r, hr, -, -, rfl⟩ := hparked t ht
        exact (hnew r hr).2.2
      · exact hadv.ids_findUnmatched ht

end

end Recon
