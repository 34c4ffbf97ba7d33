import ReconEngine.Exceptions.Resolver
import ReconEngine.Matching.Manual
import ReconEngine.Store.Protocol

/-!
# Voiding beside manual matching

The auto-resolver voids the copies of transactions while people match transactions by hand, one
statement at a time and in any order. A manual match locks both rows before it reads them. The
resolver reads a copy and its claims without a lock and locks the row only to write it.

**The law** (`no_status_lost`): no transaction is VOIDED while it is claimed or matched, and no
MATCHED or VOIDED status is overwritten, as long as nobody commits a match of a copy that an open
resolver has read. Without the condition, the row lock of the resolver comes too late: it waits for
the match, and then writes VOIDED over it.

**What it does not establish.** Nothing is said of two resolvers, nor of other writers of statuses.
`match_voided` is a run of one resolver and one person in which the condition fails and a MATCHED
status is overwritten; the code contains no statement that would prevent it.
-/

set_option autoImplicit false

namespace Recon

open Store
open Store.Prog hiding pure bind

/-! ## What both keep -/

namespace Db

/-- The status of a transaction. -/
def statusOf (d : Db) (id : Id) : Option MatchStatus := (d.transaction? id).map (·.matchStatus)

/-- The transaction is UNMATCHED or already VOIDED. -/
def Standby (d : Db) (id : Id) : Prop :=
  d.statusOf id = some .unmatched ∨ d.statusOf id = some .voided

/-- The transaction may be voided: nothing has become of it, and nothing claims it. -/
def Voidable (d : Db) (id : Id) : Prop := d.Standby id ∧ d.isClaimed id = false

/-- A match that was not rejected claims its sides, and a VOIDED transaction is not claimed. -/
structure Coherent (d : Db) : Prop where
  ids : (d.transactions.map (·.id)).Nodup
  claimed : ∀ r ∈ d.results, r.status ≠ .rejected → ∀ t, r.Side t → d.isClaimed t = true
  voided : ∀ t, d.statusOf t = some .voided → d.isClaimed t = false

/-- A VOIDED transaction holds no ACTIVE claim, and is a side of rejected matches only. -/
def VoidedApart (d : Db) : Prop :=
  ∀ t ∈ d.transactions, t.matchStatus = .voided →
    d.isClaimed t.id = false ∧ ∀ r ∈ d.results, r.Side t.id → r.status = .rejected

/-- No MATCHED or VOIDED status is overwritten. -/
def StatusesStand (d d' : Db) : Prop :=
  ∀ t status, status = .matched ∨ status = .voided → d.statusOf t = some status →
    d'.statusOf t = some status

/-- In coherent tables the status of a row is found under its identifier. -/
theorem statusOf_of_mem {d : Db} (h : d.Coherent) {t : NormalisedTransaction}
    (ht : t ∈ d.transactions) : d.statusOf t.id = some t.matchStatus := by
  rw [statusOf, transaction?]
  cases hfind : d.transactions.find? (·.id = t.id) with
  | none =>
    have := List.find?_eq_none.mp hfind t ht
    simp at this
  | some t' =>
    have hid : t'.id = t.id := by simpa using List.find?_some hfind
    rw [eq_of_key_eq h.ids (List.mem_of_find?_eq_some hfind) ht hid, Option.map_some]

/-- Coherent tables have no VOIDED row that is claimed or matched. -/
theorem Coherent.voidedApart {d : Db} (h : d.Coherent) : d.VoidedApart := by
  intro t ht hvoided
  have hfree := h.voided t.id ((statusOf_of_mem h ht).trans (congrArg some hvoided))
  refine ⟨hfree, fun r hr hside => ?_⟩
  by_contra hstands
  rw [h.claimed r hr hstands t.id hside] at hfree
  nomatch hfree

end Db

/-- The tables that the operations of the engine leave behind are such tables. -/
theorem Ledger.coherent {n : Nat} {d : Db} (h : Ledger n d) : d.Coherent where
  ids := h.transactionIds
  claimed r hr hstands t hside := by
    obtain hsettled | hpending | hrejected := r.status_cases
    · obtain ⟨r', hholds, -⟩ := h.covered r hr hsettled t hside
      exact hholds.isClaimed
    · exact ((h.parked r hr hpending).2 t hside).isClaimed
    · exact absurd hrejected hstands
  voided t ht := by
    obtain ⟨row, hrow, hstatus⟩ := Option.map_eq_some_iff.mp ht
    have hid : row.id = t := by simpa using List.find?_some hrow
    rw [← hid]
    exact h.voided row (List.mem_of_find?_eq_some hrow) hstatus

/-! ## The writes of both -/

/-- The writes of a voiding and of a manual match. -/
def RowWrite.ByEither : RowWrite → Prop
  | .transactionStatus _ status => status = .matched
  | .insertClaim c => c.status = .active
  | .voidTransaction .. | .insertResult _ | .claimResult .. | .updateException .. | .insertEvent _
  | .insertAudit _ => True
  | _ => False

/-- The writes among them that change no status, no result and no claim's existence. -/
def RowWrite.Aside : RowWrite → Prop
  | .claimResult .. | .updateException .. | .insertEvent _ | .insertAudit _ => True
  | _ => False

theorem RowWrite.Aside.byEither {w : RowWrite} (h : w.Aside) : w.ByEither := by
  cases w with
  | claimResult id result => trivial
  | updateException id columns => trivial
  | insertEvent e => trivial
  | insertAudit row => trivial
  | _ => exact h.elim

/-- What a log of such writes does to the tables. -/
structure Effects (log : List RowWrite) (d d' : Db) : Prop where
  ids : d'.transactions.map (·.id) = d.transactions.map (·.id)
  claims : ∀ t, d'.isClaimed t = true ↔
    d.isClaimed t = true ∨ ∃ c, .insertClaim c ∈ log ∧ c.normalisedTransactionId = t
  results : ∀ r ∈ d'.results, r ∈ d.results ∨ .insertResult r ∈ log
  statuses : ∀ t, d'.statusOf t = d.statusOf t ∨
    (∃ original, .voidTransaction t original ∈ log) ∧ d'.statusOf t = some .voided ∨
    .transactionStatus t .matched ∈ log ∧ d'.statusOf t = some .matched

/-- An update changes the status of the rows it names only. -/
theorem statusOf_update {f : NormalisedTransaction → NormalisedTransaction} {status : MatchStatus}
    (hid : ∀ row, (f row).id = row.id) (hf : ∀ row, (f row).matchStatus = status) (d : Db)
    (id t : Id) :
    (d.updateTransaction [id] f).statusOf t = d.statusOf t ∨
      t = id ∧ (d.updateTransaction [id] f).statusOf t = some status := by
  have hfind : (updateIn (·.id) [id] f d.transactions).find? (·.id = t) = _ :=
    find_updateIn hid [id] d.transactions t
  simp only [Db.statusOf, Db.transaction?, Db.updateTransaction, hfind, Option.map_map]
  cases hrow : d.transactions.find? (·.id = t) with
  | none => simp
  | some row =>
    have hrowId : row.id = t := by simpa using List.find?_some hrow
    by_cases h : t = id
    · right
      simp [h, hrowId, hf]
    · left
      simp [hrowId, h]

/-- What one write of either side does to the statuses. -/
theorem effects_apply {w : RowWrite} (h : w.ByEither) (d : Db) : Effects [w] d (w.apply d) := by
  cases w with
  | transactionStatus id status =>
    obtain rfl : status = .matched := h
    refine ⟨Store.map_updateIn fun _ => rfl, by simp [RowWrite.apply, Db.isClaimed, Db.updateTransaction],
      fun r hr => Or.inl hr, fun t => ?_⟩
    obtain hsame | ⟨rfl, hset⟩ := statusOf_update (f := fun t => { t with matchStatus := .matched })
      (fun _ => rfl) (fun _ => rfl) d id t
    · exact Or.inl hsame
    · exact Or.inr (Or.inr ⟨List.mem_singleton_self _, hset⟩)
  | voidTransaction id original =>
    refine ⟨Store.map_updateIn fun _ => rfl, by simp [RowWrite.apply, Db.isClaimed, Db.updateTransaction],
      fun r hr => Or.inl hr, fun t => ?_⟩
    obtain hsame | ⟨rfl, hset⟩ := statusOf_update
      (f := fun t => { t with matchStatus := .voided, voidedOriginalId := some original })
      (fun _ => rfl) (fun _ => rfl) d id t
    · exact Or.inl hsame
    · exact Or.inr (Or.inl ⟨⟨original, List.mem_singleton_self _⟩, hset⟩)
  | insertClaim c =>
    have hactive : c.status = .active := h
    exact ⟨rfl, fun t => by simp [RowWrite.apply, Db.isClaimed, hactive],
      fun r hr => Or.inl hr, fun t => Or.inl rfl⟩
  | claimResult id result =>
    refine ⟨rfl, fun t => ?_, fun r hr => Or.inl hr, fun t => Or.inl rfl⟩
    have hsame : ∀ c : MatchClaim, (if c.id = id then { c with matchResultId := some result }
        else c).normalisedTransactionId = c.normalisedTransactionId ∧
        (if c.id = id then { c with matchResultId := some result } else c).status = c.status := by
      intro c
      split <;> exact ⟨rfl, rfl⟩
    simp [RowWrite.apply, Db.isClaimed, Db.updateClaim, updateIn, hsame]
  | insertResult r =>
    exact ⟨rfl, fun t => by simp [RowWrite.apply, Db.isClaimed], fun r' hr' => by
      simpa [RowWrite.apply] using hr', fun t => Or.inl rfl⟩
  | updateException id columns =>
    exact ⟨rfl, fun t => by simp [RowWrite.apply, Db.isClaimed], fun r hr => Or.inl hr,
      fun t => Or.inl rfl⟩
  | insertEvent e =>
    exact ⟨rfl, fun t => by simp [RowWrite.apply, Db.isClaimed], fun r hr => Or.inl hr,
      fun t => Or.inl rfl⟩
  | insertAudit row =>
    exact ⟨rfl, fun t => by simp [RowWrite.apply, Db.isClaimed], fun r hr => Or.inl hr,
      fun t => Or.inl rfl⟩
  | _ => exact h.elim

theorem Effects.trans {log log' : List RowWrite} {d d' d'' : Db} (h : Effects log d d')
    (h' : Effects log' d' d'') : Effects (log ++ log') d d'' where
  ids := h'.ids.trans h.ids
  claims t := by
    rw [h'.claims, h.claims]
    simp only [List.mem_append]
    grind
  results r hr := by
    have := h'.results r hr
    have := h.results r
    simp only [List.mem_append]
    grind
  statuses t := by
    have hfirst := h.statuses t
    have hsecond := h'.statuses t
    simp only [List.mem_append]
    grind

theorem effects_replay {log : List RowWrite} (h : ∀ w ∈ log, w.ByEither) (d : Db) :
    Effects log d (schema.replay log d) := by
  induction log generalizing d with
  | nil => exact ⟨rfl, fun t => by simp [Schema.replay], fun r hr => Or.inl hr, fun t => Or.inl rfl⟩
  | cons w log ih =>
    have hw := effects_apply (h w List.mem_cons_self) d
    exact hw.trans (ih (fun w' hw' => h w' (List.mem_cons_of_mem w hw')) (w.apply d))

/-! ## The protocol -/

/-- What a resolver that has read a copy goes on to rely on: nothing becomes of it and nobody claims
it. -/
def leavesCopies : Mark → Db → Db → Prop
  | .transaction id, d, d' => (d.Standby id → d'.Standby id) ∧ (d.Voidable id → d'.Voidable id)
  | _, _, _ => True

/-- A row lock protects the status of the transaction, and the key of a claim whether it is claimed.
No commit overwrites a MATCHED or VOIDED status. -/
def settling : Protocol schema where
  agree l d d' := match l with
    | .transaction id => d.statusOf id = d'.statusOf id
    | .claimKey id => d.isClaimed id = d'.isClaimed id
    | _ => True
  same := leavesCopies
  inv _ d := d.Coherent
  writes _ _ := True
  moves d d' := d.StatusesStand d'
  agree_refl l d := by cases l <;> trivial
  agree_trans l d d' d'' h h' := by
    cases l with
    | transaction id => exact Eq.trans h h'
    | claimKey id => exact Eq.trans h h'
    | _ => trivial
  same_refl m d := by
    cases m with
    | transaction id => exact ⟨fun h => h, fun h => h⟩
    | _ => trivial
  same_trans m d d' d'' h h' := by
    cases m with
    | transaction id => exact ⟨h'.1 ∘ h.1, h'.2 ∘ h.2⟩
    | _ => trivial
  inv_mono _ _ _ _ h := h

/-- What stands behind a log that is to be committed: a lock and an unlocked reading behind each
VOIDED, both locks and a reading behind each claim and each MATCHED, claims behind each result. -/
structure Backed (held : List RowLock) (marks : List Mark) (log : List RowWrite) (d : Db) : Prop where
  writes : ∀ w ∈ log, w.ByEither
  voids : ∀ t original, .voidTransaction t original ∈ log →
    .transaction t ∈ held ∧ .transaction t ∈ marks ∧ d.Voidable t
  matched : ∀ t, .transactionStatus t .matched ∈ log →
    .transaction t ∈ held ∧ d.statusOf t = some .unmatched
  claims : ∀ c, .insertClaim c ∈ log → .transaction c.normalisedTransactionId ∈ held ∧
    .claimKey c.normalisedTransactionId ∈ held ∧
    d.statusOf c.normalisedTransactionId = some .unmatched
  results : ∀ r, .insertResult r ∈ log → ∀ t, r.Side t →
    ∃ c, .insertClaim c ∈ log ∧ c.normalisedTransactionId = t
  apart : ∀ t original, .voidTransaction t original ∈ log →
    ∀ c, .insertClaim c ∈ log → c.normalisedTransactionId ≠ t

/-- What a client knows stands behind its log. -/
def Stands (k : Local schema) : Prop := Backed k.held k.marks k.log k.db

namespace Backed

variable {held held' : List RowLock} {marks marks' : List Mark} {log : List RowWrite} {d : Db}

theorem nil (held : List RowLock) (marks : List Mark) (d : Db) : Backed held marks [] d := by
  constructor <;> simp

/-- More locks and more marks back as much. -/
theorem mono (h : Backed held marks log d) (hheld : held ⊆ held') (hmarks : marks ⊆ marks') :
    Backed held' marks' log d where
  writes := h.writes
  voids t original ht := by
    obtain ⟨hlock, hmark, hvoidable⟩ := h.voids t original ht
    exact ⟨hheld hlock, hmarks hmark, hvoidable⟩
  matched t ht := by
    obtain ⟨hlock, hstatus⟩ := h.matched t ht
    exact ⟨hheld hlock, hstatus⟩
  claims c hc := by
    obtain ⟨hlock, hkey, hstatus⟩ := h.claims c hc
    exact ⟨hheld hlock, hheld hkey, hstatus⟩
  results := h.results
  apart := h.apart

/-- What others commit leaves it standing. -/
theorem later {k : Local schema} {n : Nat} {d' : Db} (h : Backed held marks log k.db)
    (hl : settling.Later k n d') (hheld : held ⊆ k.held) (hmarks : marks ⊆ k.marks) :
    Backed held marks log d' where
  writes := h.writes
  voids t original ht := by
    obtain ⟨hlock, hmark, hvoidable⟩ := h.voids t original ht
    exact ⟨hlock, hmark, (hl.same _ (hmarks hmark)).2 hvoidable⟩
  matched t ht := by
    obtain ⟨hlock, hstatus⟩ := h.matched t ht
    exact ⟨hlock, (hl.agree _ (hheld hlock)).symm.trans hstatus⟩
  claims c hc := by
    obtain ⟨hlock, hkey, hstatus⟩ := h.claims c hc
    exact ⟨hlock, hkey, (hl.agree _ (hheld hlock)).symm.trans hstatus⟩
  results := h.results
  apart := h.apart

/-- A further write that has behind it what the log has. -/
theorem append {w : RowWrite} (h : Backed held marks log d) (hw : w.ByEither)
    (hvoid : ∀ t original, w = .voidTransaction t original →
      .transaction t ∈ held ∧ .transaction t ∈ marks ∧ d.Voidable t)
    (hmatched : ∀ t, w = .transactionStatus t .matched →
      .transaction t ∈ held ∧ d.statusOf t = some .unmatched)
    (hclaim : ∀ c, w = .insertClaim c → .transaction c.normalisedTransactionId ∈ held ∧
      .claimKey c.normalisedTransactionId ∈ held ∧
      d.statusOf c.normalisedTransactionId = some .unmatched)
    (hresult : ∀ r, w = .insertResult r → ∀ t, r.Side t →
      ∃ c, .insertClaim c ∈ log ∧ c.normalisedTransactionId = t)
    (hapart : ∀ t original, .voidTransaction t original ∈ log ++ [w] →
      ∀ c, .insertClaim c ∈ log ++ [w] → c.normalisedTransactionId ≠ t) :
    Backed held marks (log ++ [w]) d where
  writes w' hw' := by
    obtain hold | hnew := List.mem_append.mp hw'
    · exact h.writes w' hold
    · rw [List.mem_singleton.mp hnew]
      exact hw
  voids t original ht := by
    obtain hold | hnew := List.mem_append.mp ht
    · exact h.voids t original hold
    · exact hvoid t original (List.mem_singleton.mp hnew).symm
  matched t ht := by
    obtain hold | hnew := List.mem_append.mp ht
    · exact h.matched t hold
    · exact hmatched t (List.mem_singleton.mp hnew).symm
  claims c hc := by
    obtain hold | hnew := List.mem_append.mp hc
    · exact h.claims c hold
    · exact hclaim c (List.mem_singleton.mp hnew).symm
  results r hr t hside := by
    have hclaimed : ∃ c, .insertClaim c ∈ log ∧ c.normalisedTransactionId = t := by
      obtain hold | hnew := List.mem_append.mp hr
      · exact h.results r hold t hside
      · exact hresult r (List.mem_singleton.mp hnew).symm t hside
    obtain ⟨c, hc, hct⟩ := hclaimed
    exact ⟨c, List.mem_append_left _ hc, hct⟩
  apart := hapart

/-- A further write that concerns neither statuses nor results nor new claims. -/
theorem aside {w : RowWrite} (h : Backed held marks log d) (hw : w.Aside) :
    Backed held marks (log ++ [w]) d := by
  have hold : ∀ {w' : RowWrite}, w' ∈ log ++ [w] → ¬ w'.Aside → w' ∈ log := by
    intro w' hmem hne
    obtain hmem | hmem := List.mem_append.mp hmem
    · exact hmem
    · rw [List.mem_singleton.mp hmem] at hne
      exact absurd hw hne
  apply h.append hw.byEither
  · rintro t original rfl
    exact hw.elim
  · rintro t rfl
    exact hw.elim
  · rintro c rfl
    exact hw.elim
  · rintro r rfl
    exact hw.elim
  · exact fun t o ht c hc => h.apart t o (hold ht id) c (hold hc id)

/-- A log that stands may be committed. -/
theorem commits (h : Backed held marks log d) (hd : d.Coherent) :
    (∀ l, l ∉ held → settling.agree l d (schema.replay log d)) ∧ (schema.replay log d).Coherent ∧
      d.StatusesStand (schema.replay log d) := by
  have heffects := effects_replay h.writes d
  refine ⟨?_, ⟨?_, ?_, ?_⟩, ?_⟩
  · intro l hl
    cases l with
    | transaction t =>
      obtain hsame | ⟨⟨original, hvoid⟩, -⟩ | ⟨hmatched, -⟩ := heffects.statuses t
      · exact hsame.symm
      · exact absurd (h.voids t original hvoid).1 hl
      · exact absurd (h.matched t hmatched).1 hl
    | claimKey t =>
      have hsame : d.isClaimed t = (schema.replay log d).isClaimed t := by
        rw [Bool.eq_iff_iff, heffects.claims]
        constructor
        · exact Or.inl
        · intro hclaimed
          obtain hold | ⟨c, hc, rfl⟩ := hclaimed
          · exact hold
          · exact absurd (h.claims c hc).2.1 hl
      exact hsame
    | _ => trivial
  · rw [heffects.ids]
    exact hd.ids
  · intro r hr hstands t hside
    rw [heffects.claims]
    obtain hold | hnew := heffects.results r hr
    · exact Or.inl (hd.claimed r hold hstands t hside)
    · exact Or.inr (h.results r hnew t hside)
  · intro t hvoided
    rw [← Bool.not_eq_true, heffects.claims]
    obtain hsame | ⟨⟨original, hvoid⟩, -⟩ | ⟨-, hmatched⟩ := heffects.statuses t
    · rw [hsame] at hvoided
      rintro (hclaimed | ⟨c, hc, rfl⟩)
      · rw [hd.voided t hvoided] at hclaimed
        nomatch hclaimed
      · rw [(h.claims c hc).2.2] at hvoided
        nomatch hvoided
    · rintro (hclaimed | ⟨c, hc, rfl⟩)
      · rw [(h.voids t original hvoid).2.2.2] at hclaimed
        nomatch hclaimed
      · exact h.apart _ original hvoid c hc rfl
    · rw [hmatched] at hvoided
      nomatch hvoided
  · intro t status hstatus ht
    obtain hsame | ⟨⟨original, hvoid⟩, hvoided⟩ | ⟨hmatched, -⟩ := heffects.statuses t
    · exact hsame.trans ht
    · obtain hstandby | hstandby := (h.voids t original hvoid).2.2.1
      · rw [hstandby] at ht
        cases ht
        simp at hstatus
      · rw [hvoided, ← ht, hstandby]
    · rw [(h.matched t hmatched).2] at ht
      cases ht
      simp at hstatus

end Backed

/-! ## Steps of both -/

section

variable {k k₀ : Local schema} {n : Nat} {d : Db}

/-- The next statement finds what the client knows standing. -/
theorem Stands.later (h : Stands k) (hl : settling.Later k n d) {held : List RowLock}
    {marks : List Mark} (hheld : k.held ⊆ held) (hmarks : k.marks ⊆ marks) :
    Stands ⟨held, marks, k.log, n, d⟩ :=
  (Backed.later h hl (fun _ h => h) (fun _ h => h)).mono hheld hmarks

theorem Stands.aside {w : RowWrite} (h : Stands k) (hw : w.Aside) :
    Stands { k with log := k.log ++ [w] } :=
  Backed.aside h hw

/-- The client is past the point `k₀`, and what it knew there still stands. -/
structure Past (k₀ k : Local schema) : Prop where
  held : k₀.held ⊆ k.held
  marks : k₀.marks ⊆ k.marks
  stands : Backed k₀.held k₀.marks k₀.log k.db

theorem Past.refl (h : Stands k) : Past k k := ⟨fun _ h => h, fun _ h => h, h⟩

/-- What others commit takes nothing from the past of a client. -/
theorem Past.later (h : Past k₀ k) (hl : settling.Later k n d) {held : List RowLock}
    {marks : List Mark} {log : List RowWrite} {m : Nat} (hheld : k.held ⊆ held)
    (hmarks : k.marks ⊆ marks) : Past k₀ ⟨held, marks, log, m, d⟩ where
  held := fun _ hmem => hheld (h.held hmem)
  marks := fun _ hmem => hmarks (h.marks hmem)
  stands := h.stands.later hl h.held h.marks

/-- Back at the savepoint. -/
theorem Past.stands_back (h : Past k₀ k) : Stands { k with held := k₀.held, log := k₀.log } :=
  h.stands.mono (fun _ h => h) h.marks

theorem auditEntry_follows (logger : AuditLogger) (event : AuditEvent) (hk : Stands k) :
    settling.Follows (logger.append event)
      (fun _ k' => Stands k' ∧ ∃ row, k'.log = k.log ++ [.insertAudit row]) (fun _ _ => True) k := by
  refine Protocol.Follows.bind (Protocol.Follows.require (fun _ => ?_) fun _ => trivial)
  refine Protocol.Follows.bind (Protocol.Follows.require (fun _ => ?_) fun _ => trivial)
  refine Protocol.Follows.bind (Protocol.Follows.lockRow fun n₁ d₁ hl₁ => ?_)
  have h₁ := hk.later hl₁ (List.subset_cons_self (.chain event.chainId) k.held) (List.Subset.refl _)
  refine Protocol.Follows.bind (Protocol.Follows.view fun n₂ d₂ hl₂ => ?_)
  have h₂ := h₁.later hl₂ (List.Subset.refl _) (List.Subset.refl _)
  refine Protocol.Follows.bind (Protocol.Follows.newId fun n₃ d₃ hl₃ => ?_)
  have h₃ := h₂.later hl₃ (List.Subset.refl _) (List.Subset.refl _)
  dsimp only
  split
  · trivial
  · refine Protocol.Follows.bind (Protocol.Follows.put (fun _ _ _ => trivial) ?_)
    refine ⟨?_, _, rfl⟩
    exact h₃.aside (w := .insertAudit _) trivial

end

/-! ## Voiding -/

section

variable {k k₀ : Local schema}

/-- The client has claimed nothing, as it never does while it voids. -/
def NoClaims (log : List RowWrite) : Prop := ∀ c, RowWrite.insertClaim c ∉ log

/-- A copy that was read as UNMATCHED and not claimed is voided. -/
theorem Stands.void {copy original : Id} (h : Stands k) (hnone : NoClaims k.log)
    (hlock : .transaction copy ∈ k.held) (hmark : .transaction copy ∈ k.marks)
    (hcopy : k.db.Voidable copy) :
    Stands { k with log := k.log ++ [.voidTransaction copy original] } := by
  apply Backed.append (w := .voidTransaction copy original) h trivial
  · intro t o heq
    cases heq
    exact ⟨hlock, hmark, hcopy⟩
  · intro t heq
    cases heq
  · intro c heq
    cases heq
  · intro r heq
    cases heq
  · intro t o _ c hc
    simp only [List.mem_append, List.mem_singleton, reduceCtorEq, or_false] at hc
    exact absurd hc (hnone c)

/-- What the transaction sees as UNMATCHED is UNMATCHED, and what it sees unclaimed is unclaimed. -/
theorem Stands.statusOf_unmatched {t : Id} {d : Db} (h : ∀ w ∈ k.log, w.ByEither)
    (ht : (schema.replay k.log d).statusOf t = some .unmatched) : d.statusOf t = some .unmatched := by
  obtain hsame | ⟨-, hother⟩ | ⟨-, hother⟩ := (effects_replay h d).statuses t
  · exact hsame.symm.trans ht
  · rw [hother] at ht
    nomatch ht
  · rw [hother] at ht
    nomatch ht

/-- A client that sees no claim in its view leaves none in the store. -/
theorem isClaimed_of_replay {t : Id} {d : Db} (h : ∀ w ∈ k.log, w.ByEither)
    (ht : (schema.replay k.log d).isClaimed t = false) : d.isClaimed t = false := by
  rw [← Bool.not_eq_true] at ht ⊢
  exact fun hclaimed => ht (((effects_replay h d).claims t).mpr (Or.inl hclaimed))

theorem record_follows {α : Type} {key : String} {a : Option α} {Q : α → Local schema → Prop}
    {E : ReconError → Local schema → Prop} (h : ∀ a, Q a k) (h' : ∀ e, E e k) :
    settling.Follows (record key a) Q E k := by
  cases a with
  | none => exact h' _
  | some a => exact h a

/-- `_void_duplicate` keeps to the protocol. -/
theorem voidDuplicate_follows (records : AffectedRecords) (hk : Stands k) (hnone : NoClaims k.log)
    (hpast : Past k₀ k) :
    settling.Follows (voidDuplicate records) (fun _ k' => Stands k' ∧ NoClaims k'.log)
      (fun _ k' => Past k₀ k') k := by
  refine Protocol.Follows.bind (record_follows (fun copyId => ?_) fun _ => hpast)
  refine Protocol.Follows.bind (Protocol.Follows.bind (Protocol.Follows.viewing fun n₁ d₁ hl₁ => ?_))
  have hmarks₁ : k.marks ⊆ [.transaction copyId] ++ k.marks := List.subset_append_right _ _
  have h₁ := hk.later hl₁ (List.Subset.refl _) hmarks₁
  have hpast₁ : Past k₀ ⟨k.held, [.transaction copyId] ++ k.marks, k.log, n₁, d₁⟩ :=
    hpast.later hl₁ (List.Subset.refl _) hmarks₁
  split
  next copy hcopy =>
    obtain rfl : copy.id = copyId := by simpa using List.find?_some hcopy
    refine Protocol.Follows.bind (record_follows (fun original => ?_) fun _ => hpast₁)
    refine Protocol.Follows.bind (Protocol.Follows.view fun n₂ d₂ hl₂ => ?_)
    have h₂ := h₁.later hl₂ (List.Subset.refl _) (List.Subset.refl _)
    have hpast₂ : Past k₀ ⟨k.held, [.transaction copy.id] ++ k.marks, k.log, n₂, d₂⟩ :=
      hpast₁.later hl₂ (List.Subset.refl _) (List.Subset.refl _)
    refine Protocol.Follows.bind (Protocol.Follows.require (fun hfree => ?_) fun _ => hpast₂)
    have hmark : Mark.transaction copy.id ∈ [.transaction copy.id] ++ k.marks := List.mem_cons_self
    simp only [Bool.and_eq_true, decide_eq_true_eq, Bool.not_eq_true'] at hfree
    have hstatus : d₁.statusOf copy.id = some .unmatched := by
      apply Stands.statusOf_unmatched (k := k) hk.writes
      rw [Db.statusOf, hcopy, Option.map_some, hfree.1]
    have hvoidable : d₂.Voidable copy.id :=
      ⟨(hl₂.same _ hmark).1 (Or.inl hstatus), isClaimed_of_replay (k := k) hk.writes hfree.2⟩
    refine Protocol.Follows.bind (Protocol.Follows.lockRow fun n₃ d₃ hl₃ => ?_)
    have h₃ := h₂.later hl₃ (List.subset_cons_self (.transaction copy.id) k.held)
      (List.Subset.refl _)
    refine Protocol.Follows.put (fun _ _ _ => trivial) ⟨?_, ?_⟩
    · exact h₃.void hnone List.mem_cons_self hmark ((hl₃.same _ hmark).2 hvoidable)
    · intro c hc
      simp only [List.mem_append, List.mem_singleton, reduceCtorEq, or_false] at hc
      exact hnone c hc
  next => exact hpast₁

/-- Changing an exception, with its event and its entry, touches neither transactions nor claims. -/
theorem changeException_follows (logger : AuditLogger) (id : Id) (columns : ExceptionColumns)
    (event : ExceptionEvent) (entry : AuditEvent) (hk : Stands k) (hnone : NoClaims k.log) :
    settling.Follows (do
        put (.updateException id columns)
        put (.insertEvent event)
        let _ ← logger.append entry : Prog Unit)
      (fun _ k' => Stands k' ∧ NoClaims k'.log) (fun _ _ => True) k := by
  refine Protocol.Follows.bind (Protocol.Follows.put (fun _ _ _ => trivial) ?_)
  have h₁ := hk.aside (w := .updateException id columns) trivial
  refine Protocol.Follows.bind (Protocol.Follows.put (fun _ _ _ => trivial) ?_)
  have h₂ := h₁.aside (w := .insertEvent event) trivial
  refine Protocol.Follows.bind ((auditEntry_follows logger entry h₂).mono ?_ fun _ _ h => h)
  intro _ k' hk'
  obtain ⟨hstands, row, hlog⟩ := hk'
  have hnone' : NoClaims k'.log := by
    intro c hc
    rw [hlog] at hc
    simp only [List.mem_append, List.mem_singleton, reduceCtorEq, or_false] at hc
    exact hnone c hc
  have hdone : Stands k' ∧ NoClaims k'.log := ⟨hstands, hnone'⟩
  exact hdone

theorem autoOutcome_follows (logger : AuditLogger) (now : Instant) (e : ReconException)
    (acted : Bool) (hk : Stands k) (hnone : NoClaims k.log) :
    settling.Follows (autoOutcome logger now e acted) (fun _ k' => Stands k' ∧ NoClaims k'.log)
      (fun _ _ => True) k := by
  cases acted with
  | true => exact changeException_follows logger e.id _ _ _ hk hnone
  | false => exact changeException_follows logger e.id _ _ _ hk hnone

/-- One copy: it is voided, or it is left to a person and nothing is voided. -/
theorem autoResolveOne_follows (logger : AuditLogger) (now : Instant) {e : ReconException}
    (he : e.category = .duplicateInternal) (hk : Stands k) (hnone : NoClaims k.log) :
    settling.Follows (autoResolveOne logger now e) (fun _ k' => Stands k' ∧ NoClaims k'.log)
      (fun _ _ => True) k := by
  have hact : act logger e now = voidDuplicate e.affectedRecords := by
    rw [act, he]
  have hvoid : settling.Follows (do
      act logger e now
      return true : Prog Bool) (fun _ k' => Stands k' ∧ NoClaims k'.log) (fun _ k' => Past k k') k := by
    rw [hact]
    exact Protocol.Follows.bind
      ((voidDuplicate_follows e.affectedRecords hk hnone (Past.refl hk)).mono (fun _ _ h => h)
        fun _ _ h => h)
  have hwork : (do
      act logger e now
      return true : Prog Bool).Work RowWrite.ByAction :=
    Work.bind (act_work logger e now) fun _ => work_pure _
  refine Protocol.Follows.bind ((Protocol.Follows.attempt hwork (hvoid.mono (fun _ _ h => h)
    fun err k' hpast _ => ?_)).mono ?_ fun _ _ h => h)
  · split
    · have hback : Stands { k' with held := k.held, log := k.log } ∧ NoClaims k.log :=
        ⟨hpast.stands_back, hnone⟩
      exact hback
    · trivial
  · intro acted k' hk'
    exact Protocol.Follows.bind
      ((autoOutcome_follows logger now e acted hk'.1 hk'.2).mono (fun _ _ h => h) fun _ _ h => h)

theorem eachRow_follows (logger : AuditLogger) (now : Instant) :
    ∀ (es : List ReconException) {k : Local schema},
      (∀ e ∈ es, e.category = .duplicateInternal) → Stands k → NoClaims k.log →
      settling.Follows (eachRow (autoResolveOne logger now) es)
        (fun _ k' => Stands k' ∧ NoClaims k'.log) (fun _ _ => True) k
  | [], k, _, hk, hnone => ⟨hk, hnone⟩
  | e :: es, k, he, hk, hnone => by
    refine Protocol.Follows.bind ((autoResolveOne_follows logger now (he e List.mem_cons_self) hk
      hnone).mono ?_ fun _ _ h => h)
    intro yes k₁ hk₁
    have hrest := eachRow_follows logger now es (fun e' he' => he e' (List.mem_cons_of_mem e he'))
      hk₁.1 hk₁.2
    exact Protocol.Follows.bind (hrest.mono (fun _ _ h => h) fun _ _ h => h)

theorem lockAll_follows :
    ∀ (es : List ReconException) {k : Local schema}, Stands k → NoClaims k.log →
      settling.Follows (lockAll es) (fun _ k' => Stands k' ∧ NoClaims k'.log) (fun _ _ => True) k
  | [], k, hk, hnone => ⟨hk, hnone⟩
  | e :: es, k, hk, hnone => by
    refine Protocol.Follows.bind (Protocol.Follows.lockRow fun n d hl => ?_)
    have h₁ := hk.later hl (List.subset_cons_self (.exception e.id) k.held) (List.Subset.refl _)
    exact lockAll_follows es h₁ hnone

/-- What stands may be committed. -/
theorem commitNow_follows (hk : Stands k) :
    settling.Follows Prog.commitNow (fun _ _ => True) (fun _ _ => True) k := by
  intro n d hl
  obtain ⟨hagree, hcoherent, hmoves⟩ :=
    (Backed.later hk hl (List.Subset.refl _) (List.Subset.refl _)).commits hl.inv
  exact ⟨hagree, hcoherent, hmoves, trivial⟩

end

/-- The auto-resolver on exceptions that it has selected, in one transaction. -/
def voidingClient (logger : AuditLogger) (now : Instant) (es : List ReconException) :
    Client schema where
  prog := do
    lockAll es
    let _ ← eachRow (autoResolveOne logger now) es
    commitNow

/-- The resolver follows the protocol: it voids what it has marked. -/
theorem voidingClient_follows (logger : AuditLogger) (now : Instant) {es : List ReconException}
    (he : ∀ e ∈ es, e.category = .duplicateInternal) {k : Local schema} (hk : Stands k)
    (hnone : NoClaims k.log) :
    settling.Follows (voidingClient logger now es).prog (fun _ _ => True) (fun _ _ => True) k := by
  refine Protocol.Follows.bind ((lockAll_follows es hk hnone).mono ?_ fun _ _ h => h)
  intro _ k₁ hk₁
  refine Protocol.Follows.bind ((eachRow_follows logger now es he hk₁.1 hk₁.2).mono ?_
    fun _ _ h => h)
  intro _ k₂ hk₂
  exact commitNow_follows hk₂.1

/-! ## Matching by hand -/

section

variable {k : Local schema} {i x : Id}

/-- The client holds the row of a transaction that it has read. -/
def HoldsRow (k : Local schema) (t : NormalisedTransaction) : Prop :=
  .transaction t.id ∈ k.held ∧ k.db.statusOf t.id = some t.matchStatus

theorem HoldsRow.later {t : NormalisedTransaction} {n : Nat} {d : Db} (h : HoldsRow k t)
    (hl : settling.Later k n d) {held : List RowLock} {marks : List Mark} {log : List RowWrite}
    (hheld : k.held ⊆ held) : HoldsRow ⟨held, marks, log, n, d⟩ t :=
  ⟨hheld h.1, (hl.agree _ h.1).symm.trans h.2⟩

/-- The client is about to pair transactions that it has locked and read as UNMATCHED. -/
structure Pairing (ts : List NormalisedTransaction) (k : Local schema) : Prop where
  stands : Stands k
  novoids : ∀ t original, .voidTransaction t original ∉ k.log
  rows : ∀ t ∈ ts, HoldsRow k t ∧ t.matchStatus = .unmatched

namespace Pairing

variable {ts : List NormalisedTransaction}

theorem later {n : Nat} {d : Db} (h : Pairing ts k) (hl : settling.Later k n d)
    {held : List RowLock} {marks : List Mark} (hheld : k.held ⊆ held) (hmarks : k.marks ⊆ marks) :
    Pairing ts ⟨held, marks, k.log, n, d⟩ where
  stands := h.stands.later hl hheld hmarks
  novoids := h.novoids
  rows t ht := ⟨(h.rows t ht).1.later hl hheld, (h.rows t ht).2⟩

/-- A new identifier. -/
theorem fresh (h : Pairing ts k) (n : Nat) : Pairing ts { k with supply := n } :=
  ⟨h.stands, h.novoids, h.rows⟩

/-- A row that a match holds is UNMATCHED, also in the store. -/
theorem row {t : NormalisedTransaction} (h : Pairing ts k) (ht : t ∈ ts) :
    .transaction t.id ∈ k.held ∧ k.db.statusOf t.id = some .unmatched := by
  obtain ⟨⟨hlock, hstatus⟩, hfree⟩ := h.rows t ht
  exact ⟨hlock, hfree ▸ hstatus⟩

/-- What a write adds must concern the pair, and be backed. -/
theorem append {w : RowWrite} (h : Pairing ts k) (hw : w.ByEither)
    (hvoid : ∀ t original, w ≠ .voidTransaction t original)
    (hmatched : ∀ id, w = .transactionStatus id .matched → ∃ t ∈ ts, t.id = id)
    (hclaim : ∀ c, w = .insertClaim c → .claimKey c.normalisedTransactionId ∈ k.held ∧
      ∃ t ∈ ts, t.id = c.normalisedTransactionId)
    (hresult : ∀ r, w = .insertResult r → ∀ t, r.Side t →
      ∃ c, .insertClaim c ∈ k.log ∧ c.normalisedTransactionId = t) :
    Pairing ts { k with log := k.log ++ [w] } := by
  have hnovoids : ∀ t original, .voidTransaction t original ∉ k.log ++ [w] := by
    intro t original hmem
    obtain hold | hnew := List.mem_append.mp hmem
    · exact h.novoids t original hold
    · exact hvoid t original (List.mem_singleton.mp hnew).symm
  refine ⟨Backed.append h.stands hw ?_ ?_ ?_ hresult ?_, hnovoids, h.rows⟩
  · exact fun t original heq => absurd heq (hvoid t original)
  · intro id heq
    obtain ⟨t, ht, rfl⟩ := hmatched id heq
    exact h.row ht
  · intro c heq
    obtain ⟨hkey, t, ht, hid⟩ := hclaim c heq
    rw [← hid] at hkey ⊢
    exact ⟨(h.row ht).1, hkey, (h.row ht).2⟩
  · exact fun t original ht => absurd ht (hnovoids t original)

theorem aside {w : RowWrite} (h : Pairing ts k) (hw : w.Aside) :
    Pairing ts { k with log := k.log ++ [w] } := by
  apply h.append hw.byEither
  · rintro t original rfl
    exact hw.elim
  · rintro t rfl
    exact hw.elim
  · rintro c rfl
    exact hw.elim
  · rintro r rfl
    exact hw.elim

end Pairing

/-- The transaction has a new claim. -/
def Claimed (k : Local schema) (t : Id) : Prop :=
  ∃ c, .insertClaim c ∈ k.log ∧ c.normalisedTransactionId = t

/-- Reading under the lock holds the row from then on. -/
theorem loadTransaction_follows {id : Id} {label : String} (hk : Stands k) (hlog : k.log = []) :
    settling.Follows (loadTransaction id label)
      (fun t k' => Stands k' ∧ k'.log = [] ∧ HoldsRow k' t ∧ ∀ t', HoldsRow k t' → HoldsRow k' t')
      (fun _ _ => True) k := by
  refine Protocol.Follows.bind (Protocol.Follows.lockRow fun n₁ d₁ hl₁ => ?_)
  have hheld₁ := List.subset_cons_self (RowLock.transaction id) k.held
  have h₁ := hk.later hl₁ hheld₁ (List.Subset.refl _)
  refine Protocol.Follows.bind (Protocol.Follows.view fun n₂ d₂ hl₂ => ?_)
  have h₂ := h₁.later hl₂ (List.Subset.refl _) (List.Subset.refl _)
  split
  next row hrow =>
    obtain rfl : row.id = id := by simpa using List.find?_some hrow
    have hread : d₂.statusOf row.id = some row.matchStatus := by
      rw [hlog] at hrow
      exact congrArg (Option.map (·.matchStatus)) hrow
    have hrows : ∀ t', HoldsRow k t' →
        HoldsRow ⟨.transaction row.id :: k.held, k.marks, k.log, n₂, d₂⟩ t' := by
      intro t' ht'
      have hfirst : HoldsRow ⟨.transaction row.id :: k.held, k.marks, k.log, n₁, d₁⟩ t' :=
        ht'.later hl₁ hheld₁
      exact hfirst.later hl₂ (List.Subset.refl _)
    have hdone : Stands ⟨.transaction row.id :: k.held, k.marks, k.log, n₂, d₂⟩ ∧ k.log = [] ∧
        HoldsRow ⟨.transaction row.id :: k.held, k.marks, k.log, n₂, d₂⟩ row ∧ ∀ t', HoldsRow k t' →
          HoldsRow ⟨.transaction row.id :: k.held, k.marks, k.log, n₂, d₂⟩ t' :=
      ⟨h₂, hlog, ⟨List.mem_cons_self, hread⟩, hrows⟩
    exact hdone
  next => trivial

/-- A row that is found free is UNMATCHED while the lock is held. -/
theorem requireFree_follows {t : NormalisedTransaction} (hk : Stands k) (hlog : k.log = []) :
    settling.Follows (requireFree t)
      (fun _ k' => Stands k' ∧ k'.log = [] ∧ t.matchStatus = .unmatched ∧
        ∀ t', HoldsRow k t' → HoldsRow k' t')
      (fun _ _ => True) k := by
  refine Protocol.Follows.bind (Protocol.Follows.view fun n d hl => ?_)
  refine Protocol.Follows.require (fun hfree => ?_) fun _ => trivial
  simp only [Bool.and_eq_true, decide_eq_true_eq] at hfree
  have h₁ := hk.later hl (List.Subset.refl _) (List.Subset.refl _)
  have hrows : ∀ t', HoldsRow k t' → HoldsRow { k with supply := n, db := d } t' :=
    fun t' ht' => ht'.later hl (List.Subset.refl _)
  have hdone : Stands { k with supply := n, db := d } ∧ k.log = [] ∧ t.matchStatus = .unmatched ∧
      ∀ t', HoldsRow k t' → HoldsRow { k with supply := n, db := d } t' :=
    ⟨h₁, hlog, hfree.1, hrows⟩
  exact hdone

variable {ts : List NormalisedTransaction} {k₀ : Local schema}

/-- A claim of a side of the pair, whose key is held. -/
theorem Pairing.claim {c : MatchClaim} (h : Pairing ts k) (hactive : c.status = .active)
    (hkey : .claimKey c.normalisedTransactionId ∈ k.held)
    (hside : ∃ t ∈ ts, t.id = c.normalisedTransactionId) :
    Pairing ts { k with log := k.log ++ [.insertClaim c] } := by
  apply Pairing.append (w := .insertClaim c) h hactive
  · intro t original heq
    cases heq
  · intro id heq
    cases heq
  · intro c' heq
    cases heq
    exact ⟨hkey, hside⟩
  · intro r heq
    cases heq

/-- A claim is inserted under the lock of its key. -/
theorem insertClaim_follows {side : ClaimSide} (hk : Pairing ts k) (hpast : Past k₀ k)
    (hside : ∃ t ∈ ts, t.id = side.transaction) :
    settling.Follows (insertClaim side)
      (fun _ k' => Pairing ts k' ∧ Past k₀ k' ∧ k.log ⊆ k'.log ∧ Claimed k' side.transaction)
      (fun _ k' => Past k₀ k') k := by
  refine Protocol.Follows.bind (Protocol.Follows.lockRow fun n₁ d₁ hl₁ => ?_)
  have hheld₁ := List.subset_cons_self (RowLock.claimKey side.transaction) k.held
  have h₁ := hk.later hl₁ hheld₁ (List.Subset.refl _)
  have hpast₁ : Past k₀ ⟨.claimKey side.transaction :: k.held, k.marks, k.log, n₁, d₁⟩ :=
    hpast.later hl₁ hheld₁ (List.Subset.refl _)
  refine Protocol.Follows.bind (Protocol.Follows.view fun n₂ d₂ hl₂ => ?_)
  have h₂ := h₁.later hl₂ (List.Subset.refl _) (List.Subset.refl _)
  have hpast₂ : Past k₀ ⟨.claimKey side.transaction :: k.held, k.marks, k.log, n₂, d₂⟩ :=
    hpast₁.later hl₂ (List.Subset.refl _) (List.Subset.refl _)
  refine Protocol.Follows.bind (Protocol.Follows.require (fun _ => ?_) fun _ => hpast₂)
  refine Protocol.Follows.bind (Protocol.Follows.newId fun n₃ d₃ hl₃ => ?_)
  have h₃ : Pairing ts ⟨.claimKey side.transaction :: k.held, k.marks, k.log, n₃ + 1, d₃⟩ :=
    (h₂.later hl₃ (List.Subset.refl _) (List.Subset.refl _)).fresh (n₃ + 1)
  have hpast₃ : Past k₀ ⟨.claimKey side.transaction :: k.held, k.marks, k.log, n₃ + 1, d₃⟩ :=
    hpast₂.later hl₃ (List.Subset.refl _) (List.Subset.refl _)
  refine Protocol.Follows.bind (Protocol.Follows.put (fun _ _ _ => trivial) ?_)
  let claim : MatchClaim :=
    { id := n₃, normalisedTransactionId := side.transaction, matchResultId := side.result,
      role := side.role, status := .active }
  have h₄ := h₃.claim (c := claim) rfl List.mem_cons_self hside
  have hpast₄ : Past k₀ ⟨.claimKey side.transaction :: k.held, k.marks,
      k.log ++ [.insertClaim claim], n₃ + 1, d₃⟩ :=
    ⟨hpast₃.held, hpast₃.marks, hpast₃.stands⟩
  have hdone : Pairing ts ⟨.claimKey side.transaction :: k.held, k.marks,
      k.log ++ [.insertClaim claim], n₃ + 1, d₃⟩ ∧ Past k₀ ⟨.claimKey side.transaction :: k.held,
      k.marks, k.log ++ [.insertClaim claim], n₃ + 1, d₃⟩ ∧ k.log ⊆ k.log ++ [.insertClaim claim] ∧
      ∃ c, .insertClaim c ∈ k.log ++ [.insertClaim claim] ∧
        c.normalisedTransactionId = side.transaction :=
    ⟨h₄, hpast₄, List.subset_append_left _ _, claim,
      List.mem_append_right _ (List.mem_singleton_self _), rfl⟩
  exact hdone

theorem Claimed.mono {k' : Local schema} {t : Id} (h : Claimed k t) (hlog : k.log ⊆ k'.log) :
    Claimed k' t := by
  obtain ⟨c, hc, hct⟩ := h
  exact ⟨c, hlog hc, hct⟩

theorem insertClaims_follows :
    ∀ (sides : List ClaimSide) {k : Local schema}, Pairing ts k → Past k₀ k →
      (∀ side ∈ sides, ∃ t ∈ ts, t.id = side.transaction) →
      settling.Follows (insertClaims sides)
        (fun _ k' => Pairing ts k' ∧ Past k₀ k' ∧ k.log ⊆ k'.log ∧
          ∀ side ∈ sides, Claimed k' side.transaction)
        (fun _ k' => Past k₀ k') k
  | [], k, hk, hpast, _ => ⟨hk, hpast, List.Subset.refl _, fun _ h => absurd h List.not_mem_nil⟩
  | side :: sides, k, hk, hpast, hsides => by
    refine Protocol.Follows.bind ((insertClaim_follows hk hpast
      (hsides side List.mem_cons_self)).mono ?_ fun _ _ h => h)
    intro claim k₁ hk₁
    obtain ⟨h₁, hpast₁, hlog₁, hclaimed₁⟩ := hk₁
    refine Protocol.Follows.bind ((insertClaims_follows sides h₁ hpast₁
      fun s hs => hsides s (List.mem_cons_of_mem side hs)).mono ?_ fun _ _ h => h)
    intro claims k₂ hk₂
    obtain ⟨h₂, hpast₂, hlog₂, hclaimed₂⟩ := hk₂
    have hall : ∀ s ∈ side :: sides, Claimed k₂ s.transaction := by
      intro s hs
      obtain rfl | hs := List.mem_cons.mp hs
      · exact hclaimed₁.mono hlog₂
      · exact hclaimed₂ s hs
    have hdone : Pairing ts k₂ ∧ Past k₀ k₂ ∧ k.log ⊆ k₂.log ∧
        ∀ s ∈ side :: sides, Claimed k₂ s.transaction :=
      ⟨h₂, hpast₂, List.Subset.trans hlog₁ hlog₂, hall⟩
    exact hdone

/-- Both claims or none. -/
theorem claimPair_follows {i x : NormalisedTransaction} (hk : Pairing [i, x] k) :
    settling.Follows (claimPair i.id x.id)
      (fun claims k' => Pairing [i, x] k' ∧ ∀ cs, claims = some cs →
        Claimed k' i.id ∧ Claimed k' x.id)
      (fun _ _ => True) k := by
  have hwork : (some <$> insertClaims [{ transaction := i.id, role := .internal },
      { transaction := x.id, role := .external }] : Prog (Option (List MatchClaim))).Work
        fun _ => True :=
    Work.bind (insertClaims_work (fun _ => trivial) _) fun _ => work_pure _
  have hsides : ∀ side ∈ ([{ transaction := i.id, role := .internal },
      { transaction := x.id, role := .external }] : List ClaimSide),
      ∃ t ∈ [i, x], t.id = side.transaction := by
    intro side hside
    obtain rfl | hside := List.mem_cons.mp hside
    · exact ⟨i, List.mem_cons_self, rfl⟩
    · rw [List.mem_singleton.mp hside]
      exact ⟨x, List.mem_cons_of_mem i List.mem_cons_self, rfl⟩
  refine Protocol.Follows.attempt hwork (Protocol.Follows.bind
    ((insertClaims_follows _ hk (Past.refl hk.stands) hsides).mono ?_ fun _ k' hpast hext => ?_))
  · intro claims k' hk'
    obtain ⟨h', -, -, hclaimed⟩ := hk'
    have hdone : Pairing [i, x] k' ∧ ∀ cs, some claims = some cs →
        Claimed k' i.id ∧ Claimed k' x.id :=
      ⟨h', fun _ _ => ⟨hclaimed _ List.mem_cons_self,
        hclaimed _ (List.mem_cons_of_mem _ List.mem_cons_self)⟩⟩
    exact hdone
  · have hrows : ∀ t ∈ [i, x], HoldsRow { k' with held := k.held, log := k.log } t ∧
        t.matchStatus = .unmatched := by
      intro t ht
      obtain ⟨⟨hlock, hstatus⟩, hfree⟩ := hk.rows t ht
      exact ⟨⟨hlock, (hext.agree _ hlock).symm.trans hstatus⟩, hfree⟩
    have hdone : Pairing [i, x] { k' with held := k.held, log := k.log } ∧
        ∀ cs : List MatchClaim, none = some cs → Claimed { k' with held := k.held, log := k.log } i.id ∧
          Claimed { k' with held := k.held, log := k.log } x.id :=
      ⟨⟨hpast.stands_back, hk.novoids, hrows⟩, fun cs h => by cases h⟩
    exact hdone

/-- The result of the pair goes after its claims. -/
theorem Pairing.result {i x : NormalisedTransaction} {r : MatchResult} (h : Pairing [i, x] k)
    (hi : r.internalTransactionId = i.id) (hx : r.externalTransactionId = x.id)
    (hclaimed : Claimed k i.id ∧ Claimed k x.id) :
    Pairing [i, x] { k with log := k.log ++ [.insertResult r] } := by
  apply Pairing.append (w := .insertResult r) h trivial
  · intro t original heq
    cases heq
  · intro id heq
    cases heq
  · intro c heq
    cases heq
  · intro r' heq t hside
    cases heq
    obtain rfl | rfl := hside
    · rw [hi]
      exact hclaimed.1
    · rw [hx]
      exact hclaimed.2

/-- A side of the pair becomes MATCHED. -/
theorem Pairing.status {t : NormalisedTransaction} (h : Pairing ts k) (ht : t ∈ ts) :
    Pairing ts { k with log := k.log ++ [.transactionStatus t.id .matched] } := by
  apply Pairing.append (w := .transactionStatus t.id .matched) h rfl
  · intro t original heq
    cases heq
  · intro id heq
    cases heq
    exact ⟨t, ht, rfl⟩
  · intro c heq
    cases heq
  · intro r heq
    cases heq

/-- Recording a pair claims both sides and names them in one result. -/
theorem recordPair_follows {i x : NormalisedTransaction} {m : MatchColumns}
    (hi : m.internalTransactionId = i.id) (hx : m.externalTransactionId = x.id)
    (hk : Pairing [i, x] k) :
    settling.Follows (recordPair m) (fun _ k' => Pairing [i, x] k') (fun _ _ => True) k := by
  rw [recordPair, hi, hx]
  refine Protocol.Follows.bind ((claimPair_follows hk).mono ?_ fun _ _ h => h)
  intro claims k₁ hk₁
  obtain ⟨h₁, hclaimed⟩ := hk₁
  split
  next internalClaim externalClaim =>
    refine Protocol.Follows.bind (Protocol.Follows.newId fun n₂ d₂ hl₂ => ?_)
    have h₂ := h₁.later hl₂ (List.Subset.refl _) (List.Subset.refl _)
    refine Protocol.Follows.bind (Protocol.Follows.put (fun _ _ _ => trivial) ?_)
    have h₃ := h₂.result (r := { m with id := n₂ }) hi hx (hclaimed _ rfl)
    refine Protocol.Follows.bind (Protocol.Follows.put (fun _ _ _ => trivial) ?_)
    have h₄ := h₃.aside (w := .claimResult internalClaim.id n₂) trivial
    refine Protocol.Follows.bind (Protocol.Follows.put (fun _ _ _ => trivial) ?_)
    have h₅ := h₄.aside (w := .claimResult externalClaim.id n₂) trivial
    exact ⟨h₅.stands, h₅.novoids, h₅.rows⟩
  next => exact h₁

theorem markAll_follows : ∀ (rows : List NormalisedTransaction) {k : Local schema},
    (∀ t ∈ rows, t ∈ ts) → Pairing ts k →
      settling.Follows (markAll (rows.map (·.id))) (fun _ k' => Pairing ts k') (fun _ _ => True) k
  | [], _, _, hk => hk
  | t :: rows, k, hrows, hk => by
    refine Protocol.Follows.bind (Protocol.Follows.bind (Protocol.Follows.lockRow fun n d hl => ?_))
    have h₁ := hk.later hl (List.subset_cons_self (RowLock.transaction t.id) k.held)
      (List.Subset.refl _)
    refine Protocol.Follows.put (fun _ _ _ => trivial) ?_
    have h₂ := h₁.status (hrows t List.mem_cons_self)
    exact markAll_follows rows (fun t' ht' => hrows t' (List.mem_cons_of_mem t ht')) h₂

/-- A manual match keeps to the protocol. -/
theorem createMatch_follows (logger : AuditLogger) (internalId externalId : Id) (user note : String)
    (now : Instant) (hk : Stands k) (hlog : k.log = []) :
    settling.Follows (createMatch logger internalId externalId user note now)
      (fun _ k' => Stands k') (fun _ _ => True) k := by
  refine Protocol.Follows.bind ((loadTransaction_follows hk hlog).mono ?_ fun _ _ h => h)
  intro i k₁ hk₁
  obtain ⟨h₁, hlog₁, hi₁, -⟩ := hk₁
  refine Protocol.Follows.bind ((loadTransaction_follows h₁ hlog₁).mono ?_ fun _ _ h => h)
  intro x k₂ hk₂
  obtain ⟨h₂, hlog₂, hx₂, hrows₂⟩ := hk₂
  refine Protocol.Follows.bind (Protocol.Follows.require (fun _ => ?_) fun _ => trivial)
  refine Protocol.Follows.bind (Protocol.Follows.require (fun _ => ?_) fun _ => trivial)
  refine Protocol.Follows.bind ((requireFree_follows (t := i) h₂ hlog₂).mono ?_ fun _ _ h => h)
  intro _ k₃ hk₃
  obtain ⟨h₃, hlog₃, hfree₃, hrows₃⟩ := hk₃
  refine Protocol.Follows.bind ((requireFree_follows (t := x) h₃ hlog₃).mono ?_ fun _ _ h => h)
  intro _ k₄ hk₄
  obtain ⟨h₄, hlog₄, hfree₄, hrows₄⟩ := hk₄
  have hpair : Pairing [i, x] k₄ := by
    refine ⟨h₄, by simp [hlog₄], fun t ht => ?_⟩
    obtain rfl | ht := List.mem_cons.mp ht
    · exact ⟨hrows₄ _ (hrows₃ _ (hrows₂ _ hi₁)), hfree₃⟩
    · rw [List.mem_singleton.mp ht]
      exact ⟨hrows₄ _ (hrows₃ _ hx₂), hfree₄⟩
  refine Protocol.Follows.bind ((recordPair_follows (m := manualColumns user i x) rfl rfl
    hpair).mono ?_ fun _ _ h => h)
  intro out k₅ h₅
  cases out with
  | none => trivial
  | some id =>
    refine Protocol.Follows.bind ((markAll_follows [i, x] (fun _ h => h) h₅).mono ?_ fun _ _ h => h)
    intro _ k₆ h₆
    refine Protocol.Follows.bind ((auditEntry_follows logger _ h₆.stands).mono ?_ fun _ _ h => h)
    intro _ k₇ hk₇
    exact hk₇.1

end

/-- A manual match, in one transaction. -/
def matchingClient (logger : AuditLogger) (internalId externalId : Id) (user note : String)
    (now : Instant) : Client schema where
  prog := do
    let _ ← createMatch logger internalId externalId user note now
    commitNow

/-- The manual match follows the protocol, and relies on its locks only. -/
theorem matchingClient_follows (logger : AuditLogger) (internalId externalId : Id)
    (user note : String) (now : Instant) {k : Local schema} (hk : Stands k) (hlog : k.log = []) :
    settling.Follows (matchingClient logger internalId externalId user note now).prog
      (fun _ _ => True) (fun _ _ => True) k := by
  refine Protocol.Follows.bind ((createMatch_follows logger internalId externalId user note now hk
    hlog).mono ?_ fun _ _ h => h)
  intro _ k' hk'
  exact commitNow_follows hk'

/-! ## The law -/

/-- Resolvers of duplicates and manual matches that have not started yet. -/
def VoidsAndMatches (s : System schema) : Prop :=
  ∀ c ∈ s.clients,
    (∃ logger now es, (∀ e ∈ es, e.category = .duplicateInternal) ∧
      c = voidingClient logger now es) ∨
    ∃ logger internalId externalId user note now,
      c = matchingClient logger internalId externalId user note now

/-- Clients that have done nothing yet are ready. -/
theorem VoidsAndMatches.ready {s : System schema} (h : VoidsAndMatches s) (hcoherent : s.db.Coherent) :
    settling.Ready s := by
  refine ⟨hcoherent, ?_, ?_⟩
  · rintro i j l ⟨c, hc, hl⟩
    obtain ⟨_, _, _, -, rfl⟩ | ⟨_, _, _, _, _, _, rfl⟩ := h c (List.mem_of_getElem? hc)
    · exact absurd hl List.not_mem_nil
    · exact absurd hl List.not_mem_nil
  · intro i c hc
    have hnil : Stands (⟨[], [], [], s.supply, s.db⟩ : Local schema) := Backed.nil _ _ _
    have hlater : settling.Later ⟨[], [], [], s.supply, s.db⟩ s.supply s.db :=
      Protocol.Later.refl hcoherent
    obtain ⟨logger, now, es, hes, rfl⟩ | ⟨logger, i, x, user, note, now, rfl⟩ :=
      h c (List.mem_of_getElem? hc)
    · have hnone : NoClaims [] := fun c => List.not_mem_nil
      exact ⟨s.supply, s.db, hlater, voidingClient_follows logger now hes hnil hnone⟩
    · exact ⟨s.supply, s.db, hlater, matchingClient_follows logger i x user note now hnil rfl⟩

theorem Db.StatusesStand.refl (d : Db) : d.StatusesStand d := fun _ _ _ h => h

theorem Db.StatusesStand.trans {d d' d'' : Db} (h : d.StatusesStand d') (h' : d'.StatusesStand d'') :
    d.StatusesStand d'' :=
  fun t status hstatus ht => h' t status hstatus (h t status hstatus ht)

/-- **No status is lost** in a run where no step changes the status or the claims of a copy that
another client has read: in every state it reaches, VOIDED transactions are apart from the matches,
and every status that was MATCHED or VOIDED before still stands. -/
theorem no_status_lost (s t s' : System schema) (es es' : List Event) (hclients : VoidsAndMatches s)
    (hcoherent : s.db.Coherent) (hstable : s.Stable leavesCopies (es ++ es')) (hrun : s.run es = some t)
    (hrun' : t.run es' = some s') : s'.db.VoidedApart ∧ t.db.StatusesStand s'.db := by
  obtain ⟨hfirst, hsecond⟩ := System.stable_append hstable hrun
  have hready : settling.Ready t := (hclients.ready hcoherent).run es hfirst hrun
  have hfinal := System.stable_induction
    (I := fun u => settling.Ready u ∧ t.db.StatusesStand u.db)
    (fun u e u' hu hstep hmarks => by
      obtain ⟨hready', hmoves⟩ := hu.1.step hstep hmarks
      refine ⟨hready', hu.2.trans ?_⟩
      obtain hsame | hmoves := hmoves
      · rw [hsame]
        exact Db.StatusesStand.refl u.db
      · exact hmoves)
    es' ⟨hready, Db.StatusesStand.refl t.db⟩ hsecond hrun'
  exact ⟨hfinal.1.inv.voidedApart, hfinal.2⟩

/-! ## A copy that is matched by hand -/

/-- A payment of 1,000 rupees. -/
def thousandRupees (id : Id) (source : Source) : NormalisedTransaction where
  id := id
  rawTransactionId := id
  ingestionFileId := id
  source := source
  bankCode := "HDFC"
  sourceLineNo := none
  txnDate := 20700
  settlementDate := none
  txnTimestampUtc := 0
  amountMinor := 100000
  currency := "INR"
  direction := .cr
  isReversal := false
  counterpartyNameNormalised := none
  narration := none
  narrationNormalised := none
  originalReferenceText := none
  normalisedReference := some "PAY42"
  matchStatus := .unmatched
  voidedOriginalId := none

/-- The second transaction is a copy of the first. -/
def secondIsCopy : ReconException where
  id := 4
  dedupeKey := .txn .duplicateInternal 2
  category := .duplicateInternal
  severity := .low
  status := .open
  assignedTier := 1
  bankCode := "HDFC"
  runId := none
  affectedRecords := { normalisedTransactionIds := [2], originalTransactionId := some 1 }
  createdAt := 0
  slaDeadline := 0

/-- A resolver is about to void the copy, and a person to match it. -/
def copyWanted : System schema where
  db := { transactions := [thousandRupees 1 .internal, thousandRupees 2 .internal,
            thousandRupees 3 .external],
          exceptions := [secondIsCopy] }
  supply := 5
  clients := [voidingClient ⟨constantDigests⟩ 0 [secondIsCopy],
    matchingClient ⟨constantDigests⟩ 2 3 "ann" "same payment" 0]

/-- The person comes after the resolver. -/
def voidFirst : List Event := List.replicate 20 (.run 0) ++ List.replicate 6 (.run 1)

/-- The resolver has read the copy and its claims when the person matches it. -/
def matchedBetween : List Event :=
  List.replicate 3 (.run 0) ++ List.replicate 30 (.run 1) ++ List.replicate 15 (.run 0)

theorem copyWanted_clients : VoidsAndMatches copyWanted := by
  intro c hc
  simp only [copyWanted, List.mem_cons, List.not_mem_nil, or_false] at hc
  obtain rfl | rfl := hc
  · exact Or.inl ⟨_, _, _, by simp [secondIsCopy], rfl⟩
  · exact Or.inr ⟨_, _, _, _, _, _, rfl⟩

theorem copyWanted_coherent : copyWanted.db.Coherent where
  ids := by decide
  claimed r hr := absurd hr List.not_mem_nil
  voided t _ := rfl

theorem no_status_lost_voidFirst :
    ∃ s', copyWanted.run voidFirst = some s' ∧ s'.db.statusOf 2 = some .voided ∧
      s'.db.VoidedApart ∧ copyWanted.db.StatusesStand s'.db := by
  have hvoided : (copyWanted.run voidFirst).map (·.db.statusOf 2) = some (some .voided) := by
    decide +kernel
  obtain ⟨s', hrun, hs'⟩ := Option.map_eq_some_iff.mp hvoided
  exact ⟨s', hrun, hs', no_status_lost copyWanted copyWanted s' [] voidFirst copyWanted_clients
    copyWanted_coherent (System.stable_of_takesTurns _ _ _ (by decide +kernel)) rfl hrun⟩

/-- The resolver writes VOIDED over the match. -/
theorem match_voided :
    ¬ ∀ (s t s' : System schema) (es es' : List Event), VoidsAndMatches s → s.db.Coherent →
      s.run es = some t → t.run es' = some s' → s'.db.VoidedApart ∧ t.db.StatusesStand s'.db := by
  intro h
  have hclaimed : (copyWanted.run matchedBetween).map (fun s =>
      s.db.transactions.any fun t => t.matchStatus = .voided ∧ s.db.isClaimed t.id = true) =
        some true := by
    decide +kernel
  obtain ⟨s', hrun, hs'⟩ := Option.map_eq_some_iff.mp hclaimed
  have hapart := (h copyWanted copyWanted s' [] matchedBetween copyWanted_clients copyWanted_coherent
    rfl hrun).1
  obtain ⟨t, ht, hboth⟩ := List.any_eq_true.mp hs'
  obtain ⟨hvoided, hclaim⟩ := of_decide_eq_true hboth
  rw [(hapart t ht hvoided).1] at hclaim
  nomatch hclaim

end Recon
