import ReconEngine.Matching.Sessions

/-!
# Deadlocks

A run and the decisions of people lock transactions, results and claim keys, and most of them the
matching chain. A manual match takes the rows of its two sides, then their claim keys; the levels of
a run claim first and lock the rows to set their statuses, and a run that has written to the chain
goes on to lock more. So a run and a person who are about the same rows can come to wait for each
other, and so can two people who name the rows of a match in different orders.

**The law** (`sessions_never_deadlock`): there is no deadlock as long as sessions that hold locks at
one time are about different rows, or are such that they take turns at the rows they share: they
decide about one result, whose row they lock first, or they are manual matches neither of which
names as an internal side what the other names as an external one. What a session is about is read
off its request and what it has found so far; what it waits for, or who waits for it, plays no part.
Nor does the chain: a session that holds it while it asks for more is a run, and what a run asks for
is then its own.

**What it does not establish.** That sessions about the same rows do wait for each other: many
schedules let one end before the other comes to the rows they share. The defects are the schedules
below. The run is its matching stages; what it locks after them, in classification and escalation,
is not looked at.
-/

set_option autoImplicit false

namespace Recon

open Store
open Store.Prog hiding pure bind

/-- The matching of a run, in one transaction, and the people beside it, before any of them has
started. -/
def besideRun (o : Orchestrator) (bankCode : String) (people : List Judgement) (d : Db) (n : Nat) :
    System schema where
  db := d
  supply := n
  clients := { prog := do let _ ← o.execute bankCode; commitNow } :: people.map (·.client)

/-! ## The condition -/

/-- The sessions of a run and the people beside it. -/
def parties (o : Orchestrator) (bankCode : String) (people : List Judgement) : List Party :=
  .run bankCode o.range :: people.map .person

/-- How each session goes about its locks; there are no others. -/
def conducts (ps : List Party) (i : Nat) : Conduct schema :=
  match ps[i]? with
  | some p => p.conduct
  | none => { found := fun _ _ => [], asks := fun _ _ _ => False }

/-- Requests that take turns at the rows they share. -/
def Judgement.together : Judgement → Judgement → Bool
  | .create _ internalId externalId _ _ _, .create _ internalId' externalId' _ _ _ =>
    internalId != externalId' && externalId != internalId'
  | j, j' => j.resultId.isSome && j.resultId == j'.resultId

def Party.together : Party → Party → Bool
  | .person j, .person j' => j.together j'
  | _, _ => false

/-- Two sessions that hold locks take turns, or are about different rows. -/
def HoldApart (ps : List Party) (F : Notes schema) (s : System schema) : Prop :=
  ∀ p ∈ ps.zipIdx, ∀ q ∈ ps.zipIdx, p.2 ≠ q.2 → (s.heldBy p.2).isEmpty = false →
    (s.heldBy q.2).isEmpty = false →
      p.1.together q.1 = true ∨ ∀ l ∈ p.1.about (F.of p.2), l ∉ q.1.about (F.of q.2)

instance (ps : List Party) (F : Notes schema) (s : System schema) :
    Decidable (HoldApart ps F s) :=
  inferInstanceAs (Decidable (∀ p ∈ ps.zipIdx, ∀ q ∈ ps.zipIdx, _ → _ → _ → _ ∨ ∀ l ∈ _, _))

/-! ## A session that waits -/

/-- Session `i` waits in the middle of its transaction, for a lock that session `j` holds. -/
structure Midway (ps : List Party) (F : Notes schema) (s : System schema) (i j : Nat) (p : Party)
    (l : RowLock) : Prop where
  party : ps[i]? = some p
  asks : p.conduct.asks (F.of i) (s.heldBy i) l
  holding : (s.heldBy i).isEmpty = false
  holder : l ∈ s.heldBy j
  other : i ≠ j

section

variable {ps : List Party} {F : Notes schema} {s : System schema} {i j k n : Nat}
  {p q r : Party} {l l' l'' : RowLock}

/-- A client that waits and is waited for is midway: it holds a lock, and asks for another that its
conduct allows. -/
theorem midway_of_waits (hs : s.Keeps (conducts ps) F) (hfor : s.Waits k i) (hwait : s.Waits i j) :
    ∃ p l, Midway ps F s i j p l := by
  obtain ⟨-, held, -, hheld⟩ := hfor
  obtain ⟨hne, l, hasks, hholds⟩ := hwait
  have hconduct := hs.asks hasks
  unfold conducts at hconduct
  split at hconduct
  · rename_i p hp
    refine ⟨p, l, hp, hconduct, ?_, System.mem_heldBy.mpr hholds, hne⟩
    exact List.isEmpty_eq_false_iff_exists_mem.mpr ⟨held, System.mem_heldBy.mpr hheld⟩
  · exact hconduct.elim

theorem Midway.held_ne_nil (h : Midway ps F s i j p l) : s.heldBy i ≠ [] :=
  List.isEmpty_eq_false_iff.mp h.holding

/-- What the lock of one session is, another does not hold. -/
theorem Midway.alone (h : Midway ps F s i j p l) (hs : s.Exclusive) : l ∉ s.heldBy i :=
  fun hmem => h.other (hs i j l (System.mem_heldBy.mp hmem) (System.mem_heldBy.mp h.holder))

/-- A row that is asked for is one that the session is about. -/
theorem Midway.row (h : Midway ps F s i j p l) (hl : l ≠ chainLock) : l ∈ p.about (F.of i) :=
  ((Party.asks_about h.asks) l List.mem_cons_self).resolve_left hl

/-- A row that it holds is one it is about. -/
theorem Midway.heldRow (h : Midway ps F s i j p l) (hl : l' ≠ chainLock) (hheld : l' ∈ s.heldBy i) :
    l' ∈ p.about (F.of i) :=
  ((Party.asks_about h.asks) l' (List.mem_cons_of_mem _ hheld)).resolve_left hl

/-- Two sessions in the middle of their transactions take turns, or are about different rows. -/
theorem Midway.apart (hi : Midway ps F s i k p l) (hj : Midway ps F s j n q l')
    (hs : HoldApart ps F s) (hne : i ≠ j) :
    p.together q = true ∨ ∀ x ∈ p.about (F.of i), x ∉ q.about (F.of j) :=
  hs (p, i) (List.mem_zipIdx_iff_getElem?.mpr hi.party) (q, j)
    (List.mem_zipIdx_iff_getElem?.mpr hj.party) hne hi.holding hj.holding

/-- **No session of a cycle waits for the chain**: who holds it and asks for more is a run, and that
waits for a row of its own. -/
theorem Midway.not_chain (hi : Midway ps F s i j p l) (hj : Midway ps F s j k q l')
    (hk : Midway ps F s k n r l'') (hs : s.Exclusive) (hapart : HoldApart ps F s) :
    l ≠ chainLock := by
  rintro rfl
  cases q with
  | person j' => exact hj.asks.1 hi.holder
  | run bankCode range =>
    have hrow : l' ≠ chainLock := fun heq => hj.alone hs (heq ▸ hi.holder)
    obtain htogether | hdisjoint := hj.apart hk hapart hj.other
    · cases htogether
    · exact hdisjoint l' (hj.row hrow) (hk.heldRow hrow hj.holder)

/-- Sessions of a cycle wait for the rows of sessions that take turns with them. -/
theorem Midway.together (hi : Midway ps F s i j p l) (hj : Midway ps F s j k q l')
    (hs : HoldApart ps F s) (hl : l ≠ chainLock) : p.together q = true ∧ q.together p = true := by
  have hheld := hj.heldRow hl hi.holder
  exact ⟨(hi.apart hj hs hi.other).resolve_right fun h => h l (hi.row hl) hheld,
    (hj.apart hi hs hi.other.symm).resolve_right fun h => h l hheld (hi.row hl)⟩

/-! ## Requests that take turns -/

/-- Of two decisions about one result, only one has anything. -/
theorem Midway.one_decision {J K : Judgement} {id : Id} (hi : Midway ps F s i j (.person J) l)
    (hj : Midway ps F s j k (.person K) l') (hs : s.Exclusive) (hJ : J.resultId = some id)
    (hK : K.resultId = some id) : False := by
  have hown : ∀ {i j : Nat} {J : Judgement} {l : RowLock}, Midway ps F s i j (.person J) l →
      J.resultId = some id → s.Holds i (.result id) := by
    intro i j J l h hJ
    obtain hnone | hheld := ((Judgement.decision_asks hJ).mp h.asks).2.2
    · exact absurd hnone h.held_ne_nil
    · exact System.mem_heldBy.mp hheld
  exact hi.other (hs i j _ (hown hi hJ) (hown hj hK))

/-- A manual match that is waited for by one that names other externals than its internal has both
its rows: it is behind its second lock. -/
theorem Midway.has_rows {logger logger' : AuditLogger} {a b a' b' : Id}
    {user note user' note' : String} {now now' : Instant}
    (hi : Midway ps F s i j (.person (.create logger a b user note now)) l)
    (hj : Midway ps F s j k (.person (.create logger' a' b' user' note' now')) l')
    (hs : s.Exclusive) (hcross : a' ≠ b) :
    .transaction a' ∈ s.heldBy j ∧ .transaction b' ∈ s.heldBy j ∧
      (l' = .claimKey a' ∨ l' = .claimKey b' ∨ l' = chainLock) := by
  obtain hnone | ⟨hone, -⟩ | hown | hboth := hj.asks.2.2
  · exact absurd hnone hj.held_ne_nil
  · -- It holds one row, that of its internal; the other session asks for no such row any more.
    have hl : l = .transaction a' := List.mem_singleton.mp (hone ▸ hi.holder)
    obtain hnone | ⟨-, hsecond⟩ | hown | ⟨-, -, hkey⟩ := hi.asks.2.2
    · exact absurd hnone hi.held_ne_nil
    · exact absurd (RowLock.transaction.inj (hl.symm.trans hsecond)) hcross
    · exact absurd hown (hi.alone hs)
    · rw [hl] at hkey
      obtain hkey | hkey | hkey := hkey <;> cases hkey
  · exact absurd hown (hj.alone hs)
  · exact hboth

/-- Who waits for the key of a transaction has its row. -/
theorem Midway.no_pairings {logger logger' logger'' : AuditLogger} {a b a' b' a'' b'' : Id}
    {user note user' note' user'' note'' : String} {now now' now'' : Instant}
    (hi : Midway ps F s i j (.person (.create logger a b user note now)) l)
    (hj : Midway ps F s j k (.person (.create logger' a' b' user' note' now')) l')
    (hk : Midway ps F s k n (.person (.create logger'' a'' b'' user'' note'' now'')) l'')
    (hs : s.Exclusive) (hl' : l' ≠ chainLock) (hcross : a' ≠ b) : False := by
  obtain ⟨ha', hb', hkey⟩ := hi.has_rows hj hs hcross
  -- The key that it waits for is held by a session that holds more than the row of its internal.
  have hrows : .transaction a'' ∈ s.heldBy k ∧ .transaction b'' ∈ s.heldBy k := by
    obtain hnone | ⟨hone, -⟩ | hown | hboth := hk.asks.2.2
    · exact absurd hnone hk.held_ne_nil
    · have hl : l' = .transaction a'' := List.mem_singleton.mp (hone ▸ hj.holder)
      rw [hl] at hkey
      obtain hkey | hkey | hkey := hkey <;> cases hkey
    · exact absurd hown (hk.alone hs)
    · exact ⟨hboth.1, hboth.2.1⟩
  have hshared : ∀ x, RowLock.transaction x ∈ s.heldBy j → RowLock.transaction x ∉ s.heldBy k :=
    fun x hx hx' => hj.other (hs j k _ (System.mem_heldBy.mp hx) (System.mem_heldBy.mp hx'))
  have habout := hk.heldRow hl' hj.holder
  simp only [Party.about, Judgement.about, List.mem_cons, List.not_mem_nil, or_false] at habout
  obtain rfl | rfl | rfl := hkey
  · obtain h | h | h | h := habout <;> cases h
    · exact hshared _ ha' hrows.1
    · exact hshared _ ha' hrows.2
  · obtain h | h | h | h := habout <;> cases h
    · exact hshared _ hb' hrows.1
    · exact hshared _ hb' hrows.2
  · exact hl' rfl

/-- What takes turns with a decision is a decision about the same result. -/
theorem Judgement.together_decision {J K : Judgement} {id : Id} (hJ : J.resultId = some id)
    (h : J.together K = true) : K.resultId = some id := by
  cases J with
  | create logger a b user note now => cases hJ
  | _ => simp_all [Judgement.together]

theorem Judgement.together_create {logger : AuditLogger} {a b : Id} {user note : String}
    {now : Instant} {K : Judgement} (h : (Judgement.create logger a b user note now).together K) :
    ∃ logger' a' b' user' note' now', K = .create logger' a' b' user' note' now' ∧ a ≠ b' ∧
      b ≠ a' := by
  cases K with
  | create logger' a' b' user' note' now' =>
    have hcross : a ≠ b' ∧ b ≠ a' := by simpa [Judgement.together] using h
    exact ⟨_, _, _, _, _, _, rfl, hcross⟩
  | _ => cases h

/-- Four sessions in a row, each in the middle of its transaction, cannot wait for each other. -/
theorem HoldApart.no_deadlock (hapart : HoldApart ps F s) (hs : s.Exclusive)
    (hkeeps : s.Keeps (conducts ps) F) : ¬ s.Deadlock := by
  intro h
  obtain ⟨m, i, j, k, n, o, hmi, hij, hjk, hkn, hno⟩ := h.waits
  obtain ⟨p, l, hi⟩ := midway_of_waits hkeeps hmi hij
  obtain ⟨q, l', hj⟩ := midway_of_waits hkeeps hij hjk
  obtain ⟨r, l'', hk⟩ := midway_of_waits hkeeps hjk hkn
  obtain ⟨_, _, hn⟩ := midway_of_waits hkeeps hkn hno
  have hl := hi.not_chain hj hk hs hapart
  have hl' := hj.not_chain hk hn hs hapart
  have hpq := hi.together hj hapart hl
  have hqr := hj.together hk hapart hl'
  match p, q, r with
  | .person P, .person Q, .person R =>
    cases hQ : Q.resultId with
    | some id => exact hj.one_decision hk hs hQ (Judgement.together_decision hQ hqr.1)
    | none =>
      cases Q with
      | create logger a b user note now =>
        obtain ⟨_, _, _, _, _, _, rfl, hcross, -⟩ := Judgement.together_create hpq.2
        obtain ⟨_, _, _, _, _, _, rfl, -⟩ := Judgement.together_create hqr.1
        exact hi.no_pairings hj hk hs hl' hcross
      | _ => cases hQ
  | .run .., _, _ => cases hpq.1
  | .person _, .run .., _ => cases hpq.1
  | .person _, .person _, .run .. => cases hqr.1

end

/-! ## The law -/

section

variable {o : Orchestrator} {bankCode : String} {people : List Judgement} {d : Db} {n : Nat}

theorem besideRun_exclusive : (besideRun o bankCode people d n).Exclusive := by
  rintro i j l ⟨c, hc, hl⟩
  obtain rfl | hmem := List.mem_cons.mp (List.mem_of_getElem? hc)
  · cases hl
  · obtain ⟨j, -, rfl⟩ := List.mem_map.mp hmem
    cases j <;> cases hl

/-- A run beside people starts as their conducts say. -/
theorem besideRun_keeps :
    (besideRun o bankCode people d n).Keeps (conducts (parties o bankCode people)) [] := by
  intro i c hc
  cases i with
  | zero =>
    cases hc
    exact takes_bind.mpr ((execute_takes o bankCode).mono fun _ _ _ _ => trivial)
  | succ i =>
    have hmap : (people.map (·.client))[i]? = some c := hc
    rw [List.getElem?_map] at hmap
    obtain ⟨j, hj, rfl⟩ := Option.map_eq_some_iff.mp hmap
    have hconduct : conducts (parties o bankCode people) (i + 1) = j.conduct := by
      simp [conducts, parties, hj, Party.conduct]
    have hheld : j.client.held = [] := by cases j <;> rfl
    rw [hconduct, hheld]
    exact j.takes

/-- **Sessions never deadlock** in a run in which those that hold locks take turns, or are about
different rows. -/
theorem sessions_never_deadlock (o : Orchestrator) (bankCode : String) (people : List Judgement)
    (d : Db) (n : Nat) (es : List Event)
    (hapart : System.Along (conducts (parties o bankCode people))
      (HoldApart (parties o bankCode people)) [] (besideRun o bankCode people d n) es) :
    (besideRun o bankCode people d n).Throughout (fun s => ¬ s.Deadlock) es :=
  System.Keeps.throughout (fun _ _ hs hkeeps hp => HoldApart.no_deadlock hp hs hkeeps)
    besideRun_exclusive besideRun_keeps hapart

end

/-! ## A run beside people -/

/-- A run of the exact level. -/
def exactOnly : Orchestrator where
  run := 0
  blocking := dailyBlocking
  amountToleranceMinor := 0
  matching := shippedMatchingConfig
  text := literalSimilarity
  mode := .fast

/-- A pair of a fuzzy level that waits for a decision. -/
def parkedPair : MatchResult where
  id := 9
  runId := .run 0
  matchType := .fuzzy
  status := .pendingReview
  confidence := 800
  internalTransactionId := 5
  externalTransactionId := 6
  candidateCount := 1
  matchedOnDate := 0

/-- A pair of one bank that is free, one of another bank, and the pair that waits for a decision. -/
def threePayments : Db where
  transactions := [paymentSide 1 .internal "INV-1", paymentSide 2 .external "INV-1",
    { paymentSide 3 .internal "INV-2" with bankCode := "HDFC" },
    { paymentSide 4 .external "INV-3" with bankCode := "HDFC" },
    paymentSide 5 .internal "INV-5", paymentSide 6 .external "INV-6"]
  results := [parkedPair]
  claims := [⟨10, 5, some 9, .internal, .active⟩, ⟨11, 6, some 9, .external, .active⟩]

/-- A manual match of the other bank, and two decisions about one pair. -/
def threePeople : List Judgement :=
  [.create ⟨constantDigests⟩ 3 4 "ann" "same payment" 0, .confirm ⟨constantDigests⟩ 9 "bob" none 0,
    .reject ⟨constantDigests⟩ 9 "cid" "not the same" 0]

/-- All four hold locks or wait: the manual match for the chain, the rejection for the result that is
being confirmed. Then they end one after the other. -/
def waitingInLine : List Event :=
  List.replicate 10 (.run 0) ++ List.replicate 12 (.run 2) ++ List.replicate 22 (.run 1) ++
    List.replicate 16 (.run 0) ++ List.replicate 4 (.run 2) ++ List.replicate 5 (.run 1) ++
    List.replicate 3 (.run 3)

theorem sessions_never_deadlock_inTurn :
    (besideRun exactOnly "AXIS" threePeople threePayments 20).Throughout (fun s => ¬ s.Deadlock)
      waitingInLine :=
  sessions_never_deadlock exactOnly "AXIS" threePeople threePayments 20 waitingInLine
    (by decide +kernel)

/-! ## The defects -/

/-- An internal and an external transaction that an exact match pairs. -/
def onePayment : Db where
  transactions := [paymentSide 1 .internal "INV-1", paymentSide 2 .external "INV-1"]

/-- A run of the exact level, and a manual match of the pair that it is going to make. -/
def matchedTwice : System schema :=
  besideRun exactOnly "AXIS" [.create ⟨constantDigests⟩ 1 2 "ann" "same payment" 0] onePayment 3

/-- The person has locked both rows when the run claims them. -/
def crossed : List Event := List.replicate 6 (.run 1) ++ List.replicate 17 (.run 0)

/-- The run waits for a row that the person holds, and the person for a claim key of the run. -/
theorem run_deadlocks :
    ¬ ∀ (o : Orchestrator) (bankCode : String) (people : List Judgement) (d : Db) (n : Nat)
      (es : List Event) (t : System schema), (besideRun o bankCode people d n).run es = some t →
      ¬ t.Deadlock := by
  intro h
  have hwaits : (matchedTwice.run crossed).map (·.waits) =
      some [(0, 1, .transaction 1), (1, 0, .claimKey 1)] := by decide +kernel
  obtain ⟨t, hrun, hboth⟩ := Option.map_eq_some_iff.mp hwaits
  have hrunWaits : t.WaitsFor 0 1 (.transaction 1) := by
    refine (System.mem_waits (S := schema)).mp ?_
    rw [hboth]
    exact List.mem_cons_self
  have hpersonWaits : t.WaitsFor 1 0 (.claimKey 1) := by
    refine (System.mem_waits (S := schema)).mp ?_
    rw [hboth]
    exact List.mem_cons_of_mem _ List.mem_cons_self
  exact h _ _ _ _ _ _ t hrun ⟨0, (Relation.TransGen.single
    (System.waits_iff.mpr ⟨_, hrunWaits⟩)).tail (System.waits_iff.mpr ⟨_, hpersonWaits⟩)⟩

/-- Two people name the sides of a match in different orders; the sides are checked when both rows
are locked. -/
example : ((besideRun exactOnly "AXIS" [.create ⟨constantDigests⟩ 1 2 "ann" "same payment" 0,
    .create ⟨constantDigests⟩ 2 1 "bob" "same payment" 0] onePayment 3).run
      [.run 1, .run 1, .run 2, .run 2]).map (·.waits) =
    some [(1, 2, .transaction 2), (2, 1, .transaction 1)] := by
  decide +kernel

/-- Two people undo a group, each from another of its rows. -/
example : ((besideRun exactOnly "AXIS" [.unmatch ⟨constantDigests⟩ 7 "ann" "wrong" 0,
    .unmatch ⟨constantDigests⟩ 8 "bob" "wrong" 0]
      { results := [{ parkedPair with id := 7, status := .autoMatched, matchGroupId := some 40 },
        { parkedPair with id := 8, status := .autoMatched, matchGroupId := some 40 }] } 50).run
      [.run 1, .run 1, .run 1, .run 2, .run 2]).map (·.waits) =
    some [(1, 2, .result 8), (2, 1, .result 7)] := by
  decide +kernel

end Recon
