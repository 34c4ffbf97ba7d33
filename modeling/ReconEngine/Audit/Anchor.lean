import ReconEngine.Audit.Verifier
import Mathlib.Data.Set.Function

/-!
# What an accepted chain proves

A verified chain that ends in a given head is determined by that head, whoever wrote the table:
two accepted states hold the same entries. The hash has to separate the byte strings of the
entries at hand, nothing more.

`AnchorLaw` is what an exported head is for: the chain still verifies against it later, and no
change to the entries up to it goes unnoticed. The second half always holds. The first half
compares the anchor with the head of the whole chain, so it holds as long as nothing has been
appended and no longer.

**What it does not establish.** Who wrote the table, or that a head was exported before a change: an
anchor is worth what its keeper is. A hash that does not separate two byte strings separates no two
tables that differ in them only.
-/

set_option autoImplicit false

namespace Recon

open HashChain

/-! ## Two accepted chains -/

/-- The byte strings that the entries of the lists are hashed from. -/
def hashedBytes (rows : List AuditLog) : Set ByteArray :=
  {bytes | ∃ row ∈ rows, canonicalBytes row.fields = .ok bytes}

/-- The rows hold the same entry with the same hash. -/
structure SameEntry (row row' : AuditLog) : Prop where
  content : SameContent row.fields row'.fields
  currentHash : row.currentHash = row'.currentHash

/-- A hash that fits its entry was computed over the canonical bytes of that entry. -/
theorem bytes_of_digest {sha256 : Sha256} {row : AuditLog}
    (h : (auditReading sha256).digest row = some row.currentHash) :
    ∃ bytes, canonicalBytes row.fields = .ok bytes ∧ sha256.hexdigest bytes = row.currentHash := by
  have hhash := digest_iff.mp h
  unfold computeHash at hhash
  cases hb : canonicalBytes row.fields with
  | error e => rw [hb] at hhash; cases hhash
  | ok bytes => rw [hb] at hhash; exact ⟨bytes, rfl, Except.ok.inj hhash⟩

/-- Equal stored hashes that were computed from the entries mean equal entries. -/
theorem sameEntry_of_hash {sha256 : Sha256} {rows : List AuditLog}
    (hinj : Set.InjOn sha256.hexdigest (hashedBytes rows)) {row row' : AuditLog}
    (hrow : row ∈ rows) (hrow' : row' ∈ rows)
    (h : (auditReading sha256).digest row = some row.currentHash)
    (h' : (auditReading sha256).digest row' = some row'.currentHash)
    (heq : row.currentHash = row'.currentHash) : SameEntry row row' := by
  obtain ⟨bytes, hb, hhash⟩ := bytes_of_digest h
  obtain ⟨bytes', hb', hhash'⟩ := bytes_of_digest h'
  have hbytes : bytes = bytes' :=
    hinj ⟨row, hrow, hb⟩ ⟨row', hrow', hb'⟩ (hhash.trans (heq.trans hhash'.symm))
  exact ⟨canonicalBytes_inj hb (hbytes ▸ hb'), heq⟩

/-- Two linked chains of one length with one last hash hold the same entries. -/
theorem chains_agree {sha256 : Sha256} {rows rows' : List AuditLog}
    (hinj : Set.InjOn sha256.hexdigest (hashedBytes (rows ++ rows')))
    (h : Linked (auditReading sha256) none rows) (h' : Linked (auditReading sha256) none rows')
    (hlen : rows.length = rows'.length)
    (htip : tip (auditReading sha256) none rows = tip (auditReading sha256) none rows') :
    List.Forall₂ SameEntry rows rows' := by
  refine h.commit h' hlen htip fun row hrow row' hrow' hd hd' heq => ?_
  have hsame := sameEntry_of_hash hinj (List.mem_append_left _ hrow)
    (List.mem_append_right _ hrow') hd hd' heq
  exact ⟨hsame, hsame.content.prevHash⟩

/-- **Tamper evidence.** Two states of the table that verification accepts for one chain with one
expected head hold the same number of entries of the chain, and the same entries. -/
theorem verifyChain_determines (sha256 : Sha256) (d d' : Db) (chainId : String) (head : ChainHead)
    (hinj : Set.InjOn sha256.hexdigest (hashedBytes (d.chain chainId ++ d'.chain chainId)))
    (h : (verifyChain sha256 d chainId (some head)).ok = true)
    (h' : (verifyChain sha256 d' chainId (some head)).ok = true) :
    (d.chain chainId).length = (d'.chain chainId).length ∧
      List.Forall₂ SameEntry (d.chain chainId) (d'.chain chainId) := by
  obtain ⟨-, hlink, htip, -, hlen⟩ := verifyChain_iff.mp h
  obtain ⟨-, hlink', htip', -, hlen'⟩ := verifyChain_iff.mp h'
  have hlengths : (d.chain chainId).length = (d'.chain chainId).length := by omega
  exact ⟨hlengths, chains_agree hinj hlink hlink' hlengths (htip.trans htip'.symm)⟩

/-! ## A chain of two state changes

The digests are the SHA-256 values of the two entries' canonical bytes, told apart by length. -/

def stateChange : AuditEvent where
  chainId := runsChain
  actorType := "SYSTEM"
  actorId := "run-service"
  actionType := "RUN_STATE_CHANGE"
  affectedRecords := .dict [(.str "run_id", .str "7")]
  rationale := "run completed"
  occurredAt := { utc := 1700000000000000 }
  beforeState := .dict [(.str "status", .str "RUNNING")]
  afterState := .dict [(.str "status", .str "COMPLETED")]

def stateChangeDigests : Sha256 where
  hexdigest bytes :=
    if bytes.size = 359 then "8cf2b1e737a8cdc7f896df3f0ea15356f7e5be8938496570a3dd5b512e2c4ead"
    else "ff55233062a5fccfad134f0fd4551d5b964bc6543c34ab96352bdb7ada5640f2"
  length_hexdigest bytes := by split <;> rfl

def stateChangeLogger : AuditLogger := ⟨stateChangeDigests⟩

def stateChangeAnchor : ChainHead :=
  ⟨1, "8cf2b1e737a8cdc7f896df3f0ea15356f7e5be8938496570a3dd5b512e2c4ead"⟩

def firstStateChange : AuditLog :=
  (stateChange.entry 0 none).row "8cf2b1e737a8cdc7f896df3f0ea15356f7e5be8938496570a3dd5b512e2c4ead"

def secondStateChange : AuditLog :=
  (stateChange.entry 1 (some firstStateChange)).row
    "ff55233062a5fccfad134f0fd4551d5b964bc6543c34ab96352bdb7ada5640f2"

/-- The session after the entries, one row identifier spent on each. -/
def sessionAfter (rows : List AuditLog) : Session where
  committed := {}
  log := rows.map .insertAudit
  supply := rows.length

theorem size_toUTF8_ofList (cs : List Char) :
    (String.ofList cs).toUTF8.size = (cs.map Char.utf8Size).sum := by
  rw [String.toUTF8, String.toByteArray_ofList, List.utf8Encode, List.size_toByteArray,
    List.length_flatMap]
  simp only [String.length_utf8EncodeChar]

/-- The digests, told apart without encoding the text. -/
theorem hexdigest_stateChangeDigests (cs : List Char) :
    stateChangeDigests.hexdigest (String.ofList cs).toUTF8 =
      if (cs.map Char.utf8Size).sum = 359 then
        "8cf2b1e737a8cdc7f896df3f0ea15356f7e5be8938496570a3dd5b512e2c4ead"
      else "ff55233062a5fccfad134f0fd4551d5b964bc6543c34ab96352bdb7ada5640f2" := by
  rw [← size_toUTF8_ofList]
  rfl

theorem canonicalBytes_stateChange (id : Id) (prev : Option AuditLog) :
    canonicalBytes (stateChange.entry id prev) =
      .ok (String.ofList (JsonText.render (payload (stateChange.entry id prev)
        (.obj [("run_id", .str "7")]) (.obj [("status", .str "RUNNING")])
        (.obj [("status", .str "COMPLETED")])).sorted)).toUTF8 := rfl

theorem hash_firstStateChange :
    computeHash stateChangeDigests.hexdigest (stateChange.entry 0 none) =
      .ok firstStateChange.currentHash := by
  rw [computeHash, canonicalBytes_stateChange, Except.map, hexdigest_stateChangeDigests,
    if_pos (by decide +kernel)]
  rfl

theorem hash_secondStateChange :
    computeHash stateChangeDigests.hexdigest (stateChange.entry 1 (some firstStateChange)) =
      .ok secondStateChange.currentHash := by
  rw [computeHash, canonicalBytes_stateChange, Except.map, hexdigest_stateChangeDigests,
    if_neg (by decide +kernel)]
  rfl

/-- The entries as they were written. -/
def writtenTable : Db := (sessionAfter [firstStateChange, secondStateChange]).view

/-- The same entries in another order of rows, and one of another chain among them. -/
def restoredTable : Db :=
  (sessionAfter [secondStateChange, ({ stateChange with chainId := configChain }.entry 2 none).row "",
    firstStateChange]).view

def secondAnchor : ChainHead :=
  ⟨2, "ff55233062a5fccfad134f0fd4551d5b964bc6543c34ab96352bdb7ada5640f2"⟩

theorem chain_writtenTable :
    Db.chain writtenTable runsChain = [firstStateChange, secondStateChange] := rfl

theorem chain_restoredTable :
    Db.chain restoredTable runsChain = [firstStateChange, secondStateChange] := rfl

/-- The two entries are numbered, linked, and end in the anchor. -/
theorem verifies_stateChanges {d : Db}
    (h : d.chain runsChain = [firstStateChange, secondStateChange]) :
    (verifyChain stateChangeDigests d runsChain (some secondAnchor)).ok = true := by
  rw [verifyChain_iff, h]
  refine ⟨⟨rfl, rfl, trivial⟩, ⟨rfl, ?_, rfl, ?_, trivial⟩, rfl, by decide, rfl⟩
  · exact digest_iff.mpr hash_firstStateChange
  · exact digest_iff.mpr hash_secondStateChange

/-- The digests tell the entries apart. -/
theorem stateChangeDigests_injOn {rows : List AuditLog}
    (h : ∀ row ∈ rows, row = firstStateChange ∨ row = secondStateChange) :
    Set.InjOn stateChangeDigests.hexdigest (hashedBytes rows) := by
  have hdigest : ∀ row ∈ rows, ∀ bytes, canonicalBytes row.fields = .ok bytes →
      stateChangeDigests.hexdigest bytes = row.currentHash := by
    intro row hrow bytes hbytes
    have hhash : computeHash stateChangeDigests.hexdigest row.fields = .ok row.currentHash := by
      obtain rfl | rfl := h row hrow
      · exact hash_firstStateChange
      · exact hash_secondStateChange
    rw [computeHash, hbytes] at hhash
    exact Except.ok.inj hhash
  have hapart : firstStateChange.currentHash ≠ secondStateChange.currentHash := by decide
  rintro a ⟨row, hrow, ha⟩ b ⟨row', hrow', hb⟩ heq
  rw [hdigest row hrow a ha, hdigest row' hrow' b hb] at heq
  obtain rfl | rfl := h row hrow <;> obtain rfl | rfl := h row' hrow'
  · exact Except.ok.inj (ha.symm.trans hb)
  · exact absurd heq hapart
  · exact absurd heq.symm hapart
  · exact Except.ok.inj (ha.symm.trans hb)

/-- Both tables verify against the head of the second change, and hold the same entries. -/
theorem verifyChain_determines_stateChange :
    (Db.chain writtenTable runsChain).length = (Db.chain restoredTable runsChain).length ∧
      List.Forall₂ SameEntry (Db.chain writtenTable runsChain)
        (Db.chain restoredTable runsChain) := by
  refine verifyChain_determines stateChangeDigests _ _ runsChain secondAnchor ?_
    (verifies_stateChanges chain_writtenTable) (verifies_stateChanges chain_restoredTable)
  refine stateChangeDigests_injOn fun row hrow => ?_
  rw [chain_writtenTable, chain_restoredTable] at hrow
  obtain h | h := List.mem_append.mp hrow <;> simpa using h

/-! ## Chains that grow by appending -/

/-- The session `s'` comes from `s` by `n` appends to the chain and any work that leaves the
chain alone. -/
inductive Grown (logger : AuditLogger) (chainId : String) : Nat → Session → Session → Prop
  | refl (s : Session) : Grown logger chainId 0 s s
  | append {n : Nat} {s s' s'' : Session} {e : AuditEvent} {row : AuditLog}
      (h : Grown logger chainId n s s') (hchain : e.chainId = chainId)
      (happend : (logger.append e).exec s' = (.ok row, s'')) : Grown logger chainId (n + 1) s s''
  | other {n : Nat} {s s' s'' : Session} (h : Grown logger chainId n s s')
      (hchain : Db.chain s''.view chainId = Db.chain s'.view chainId) : Grown logger chainId n s s''

/-- The entries are numbered from one and linked. -/
structure WellChained (sha256 : Sha256) (rows : List AuditLog) : Prop where
  numbered : Numbered 1 rows
  linked : Linked (auditReading sha256) none rows

theorem Numbered.append {n : Int} {rows more : List AuditLog} :
    Numbered n (rows ++ more) ↔ Numbered n rows ∧ Numbered (n + rows.length) more := by
  induction rows generalizing n with
  | nil => simp [Numbered]
  | cons row rows ih =>
    simp only [List.cons_append, Numbered, ih, List.length_cons, and_assoc]
    rw [show n + 1 + (rows.length : Int) = n + ((rows.length + 1 : Nat) : Int) by push_cast; omega]

/-- An entry of a numbered list has a number within it. -/
theorem Numbered.bounds {n : Int} {rows : List AuditLog} (h : Numbered n rows) {row : AuditLog}
    (hrow : row ∈ rows) : n ≤ row.sequenceNo ∧ row.sequenceNo < n + rows.length := by
  induction rows generalizing n with
  | nil => cases hrow
  | cons r rows ih =>
    obtain ⟨hr, hrest⟩ := h
    rcases List.mem_cons.mp hrow with rfl | hmem
    · simp only [List.length_cons]
      push_cast
      omega
    · have := ih hrest hmem
      simp only [List.length_cons]
      push_cast
      omega

/-- The last entry of a numbered list carries its length, and the hash the chain ends in. -/
theorem Numbered.getLast (sha256 : Sha256) {rows : List AuditLog} (h : Numbered 1 rows)
    {row : AuditLog} (hlast : rows.getLast? = some row) :
    row.sequenceNo = rows.length ∧
      tip (auditReading sha256) none rows = some row.currentHash := by
  obtain ⟨init, rfl⟩ := List.getLast?_eq_some_iff.mp hlast
  obtain ⟨-, hrow, -⟩ := Numbered.append.mp h
  refine ⟨?_, tip_concat none init row⟩
  rw [hrow, List.length_append, List.length_singleton]
  push_cast
  omega

private theorem orderedInsert_concat {α : Type} {r : α → α → Prop} [DecidableRel r] {a x : α}
    (h : r a x) : ∀ l : List α, (l ++ [x]).orderedInsert r a = l.orderedInsert r a ++ [x]
  | [] => by simp [List.orderedInsert, h]
  | b :: l => by
    simp only [List.cons_append, List.orderedInsert]
    split
    · rfl
    · rw [orderedInsert_concat h l, List.cons_append]

/-- Sorting leaves what comes last at the end. -/
private theorem insertionSort_concat {α : Type} {r : α → α → Prop} [DecidableRel r] {x : α} :
    ∀ l : List α, (∀ a ∈ l, r a x) → (l ++ [x]).insertionSort r = l.insertionSort r ++ [x]
  | [], _ => rfl
  | a :: l, h => by
    rw [List.cons_append, List.insertionSort_cons, List.insertionSort_cons,
      insertionSort_concat l fun b hb => h b (List.mem_cons_of_mem a hb),
      orderedInsert_concat (h a List.mem_cons_self)]

/-- A chain has the entries of its name. -/
theorem Db.mem_chain {d : Db} {chainId : String} {row : AuditLog} :
    row ∈ d.chain chainId ↔ row ∈ d.audit ∧ row.chainId = chainId := by
  rw [Db.chain, List.mem_insertionSort, List.mem_filter, decide_eq_true_iff]

/-- An entry with a number beyond all others comes last. -/
theorem chain_insert {d : Db} {row : AuditLog}
    (h : ∀ r ∈ d.chain row.chainId, r.sequenceNo ≤ row.sequenceNo) :
    Db.chain (RowWrite.apply (.insertAudit row) d) row.chainId = d.chain row.chainId ++ [row] := by
  have hfilter : (d.audit ++ [row]).filter (·.chainId = row.chainId) =
      d.audit.filter (·.chainId = row.chainId) ++ [row] := by
    rw [List.filter_append]
    congr 1
    simp
  rw [Db.chain, Db.chain]
  show ((d.audit ++ [row]).filter _).insertionSort _ = _
  rw [hfilter]
  refine insertionSort_concat _ fun a ha => h a ?_
  rw [Db.mem_chain]
  simpa using ha

/-- The hashed entry for an event goes on top of its chain and keeps it well chained. -/
theorem entry_chained {sha256 : Sha256} {e : AuditEvent} {d : Db} {eventId : Id} {hash : String}
    (hwell : WellChained sha256 (d.chain e.chainId)) (haware : e.occurredAt.aware = true)
    (hhash : computeHash sha256.hexdigest (e.entry eventId (d.chain e.chainId).getLast?) = .ok hash) :
    let row := (e.entry eventId (d.chain e.chainId).getLast?).row hash
    Db.chain (RowWrite.apply (.insertAudit row) d) e.chainId = d.chain e.chainId ++ [row] ∧
      WellChained sha256 (d.chain e.chainId ++ [row]) := by
  intro row
  have hchain : row.chainId = e.chainId := rfl
  have hseq : row.sequenceNo = (d.chain e.chainId).length + 1 := by
    show ((e.entry eventId (d.chain e.chainId).getLast?).row hash).sequenceNo = _
    cases hlast : (d.chain e.chainId).getLast? with
    | none => rw [List.getLast?_eq_none_iff.mp hlast]; rfl
    | some last =>
      show last.sequenceNo + 1 = _
      rw [(hwell.numbered.getLast sha256 hlast).1]
  have hprev : row.prevHash = tip (auditReading sha256) none (d.chain e.chainId) := by
    show Option.map _ (d.chain e.chainId).getLast? = _
    cases hlast : (d.chain e.chainId).getLast? with
    | none => rw [List.getLast?_eq_none_iff.mp hlast]; rfl
    | some last => rw [(hwell.numbered.getLast sha256 hlast).2]; rfl
  have hfields : row.fields = e.entry eventId (d.chain e.chainId).getLast? := by
    show AuditEntryFields.mk _ _ _ ⟨e.occurredAt.utc, true⟩ _ _ _ _ _ _ _ _ _ = _
    rw [← haware]
    rfl
  have hdigest : (auditReading sha256).digest row = some row.currentHash :=
    digest_iff.mpr (by rw [hfields]; exact hhash)
  refine ⟨?_, ?_, ?_⟩
  · rw [← hchain]
    refine chain_insert fun r hr => ?_
    rw [hchain] at hr
    have := (hwell.numbered.bounds hr).2
    omega
  · exact Numbered.append.mpr ⟨hwell.numbered, by rw [hseq]; omega, trivial⟩
  · exact hwell.linked.concat hprev hdigest

/-- One append adds one entry on top of the chain. -/
theorem append_chain {logger : AuditLogger} {e : AuditEvent} {s s' : Session} {row : AuditLog}
    (hwell : WellChained logger.sha256 (Db.chain s.view e.chainId))
    (happend : (logger.append e).exec s = (.ok row, s')) :
    Db.chain s'.view e.chainId = Db.chain s.view e.chainId ++ [row] ∧
      WellChained logger.sha256 (Db.chain s.view e.chainId ++ [row]) := by
  have hspec := logger.append_spec e s
  unfold Store.Prog.wp at hspec
  rw [happend] at hspec
  obtain ⟨haware, hhash, hrow, rfl⟩ := hspec
  rw [Store.Session.view_write, Store.Session.view_take, hrow]
  exact entry_chained hwell haware hhash

/-- A chain that grows keeps what it had and stays well chained. -/
theorem Grown.chain {logger : AuditLogger} {chainId : String} {n : Nat} {s s' : Session}
    (h : Grown logger chainId n s s') (hwell : WellChained logger.sha256 (Db.chain s.view chainId)) :
    ∃ more, more.length = n ∧ Db.chain s'.view chainId = Db.chain s.view chainId ++ more ∧
      WellChained logger.sha256 (Db.chain s'.view chainId) := by
  induction h with
  | refl s => exact ⟨[], rfl, (List.append_nil _).symm, hwell⟩
  | @append n s s' s'' e row h hchain happend ih =>
    obtain ⟨more, hlen, hmore, hwell'⟩ := ih hwell
    subst hchain
    obtain ⟨heq, hwell''⟩ := append_chain hwell' happend
    refine ⟨more ++ [row], by rw [List.length_append, hlen]; rfl, ?_, heq ▸ hwell''⟩
    rw [heq, hmore, List.append_assoc]
  | other h hchain ih =>
    obtain ⟨more, hlen, hmore, hwell'⟩ := ih hwell
    exact ⟨more, hlen, by rw [hchain, hmore], by rw [hchain]; exact hwell'⟩

/-! ## Anchors -/

/-- Some entry of `d` up to number `n` is no longer there in `d'`, or is no longer the same. -/
def Tampered (d d' : Db) (chainId : String) (n : Int) : Prop :=
  ∃ row ∈ d.chain chainId, row.sequenceNo ≤ n ∧ ∀ row' ∈ d'.chain chainId, ¬ SameEntry row row'

/-- What an exported head promises about a later state `d` of the table: `d` verifies against it,
and a state in which an entry up to the head was deleted or altered does not. -/
def AnchorLaw (sha256 : Sha256) (chainId : String) (anchor : ChainHead) (d : Db) : Prop :=
  (verifyChain sha256 d chainId (some anchor)).ok = true ∧
    ∀ d', Set.InjOn sha256.hexdigest (hashedBytes (d.chain chainId ++ d'.chain chainId)) →
      Tampered d d' chainId anchor.sequenceNo →
        (verifyChain sha256 d' chainId (some anchor)).ok = false

/-- The head of a well-chained list, as it is exported. -/
theorem chainHead_spec {sha256 : Sha256} {d : Db} {chainId : String} {anchor : ChainHead}
    (hwell : WellChained sha256 (d.chain chainId)) (h : chainHead d chainId = some anchor) :
    anchor.sequenceNo = (d.chain chainId).length ∧
      tip (auditReading sha256) none (d.chain chainId) = some anchor.currentHash ∧
      anchor.currentHash ≠ "" := by
  obtain ⟨last, hlast, rfl⟩ := Option.map_eq_some_iff.mp h
  obtain ⟨hseq, htip⟩ := hwell.numbered.getLast sha256 hlast
  refine ⟨hseq, htip, ?_⟩
  -- The stored hash is a hex digest, so it is not empty.
  obtain ⟨init, hinit⟩ := List.getLast?_eq_some_iff.mp hlast
  obtain ⟨-, -, hdigest, -⟩ := linked_append.mp (hinit ▸ hwell.linked)
  obtain ⟨bytes, -, hhash⟩ := bytes_of_digest hdigest
  intro hempty
  have hlen := sha256.length_hexdigest bytes
  rw [hhash] at hlen
  simp only at hempty
  rw [hempty] at hlen
  cases hlen

/-- Nothing up to the anchor can be deleted or altered without the anchor showing it. -/
theorem anchor_detects {sha256 : Sha256} {d d' : Db} {chainId : String} {anchor : ChainHead}
    {old more : List AuditLog} (hwell : WellChained sha256 old)
    (hgrown : d.chain chainId = old ++ more) (hnum : Numbered 1 (d.chain chainId))
    (hseq : anchor.sequenceNo = old.length)
    (htip : tip (auditReading sha256) none old = some anchor.currentHash)
    (hinj : Set.InjOn sha256.hexdigest (hashedBytes (d.chain chainId ++ d'.chain chainId)))
    (htampered : Tampered d d' chainId anchor.sequenceNo) :
    (verifyChain sha256 d' chainId (some anchor)).ok = false := by
  rw [← Bool.not_eq_true]
  intro h
  obtain ⟨-, hlink', htip', -, hlen'⟩ := verifyChain_iff.mp h
  have hsub : hashedBytes (old ++ d'.chain chainId) ⊆
      hashedBytes (d.chain chainId ++ d'.chain chainId) := by
    rintro bytes ⟨row, hrow, hb⟩
    refine ⟨row, ?_, hb⟩
    rw [hgrown]
    rcases List.mem_append.mp hrow with h | h
    · exact List.mem_append_left _ (List.mem_append_left _ h)
    · exact List.mem_append_right _ h
  have hagree := chains_agree (hinj.mono hsub) hwell.linked hlink' (by omega)
    (htip.trans htip'.symm)
  obtain ⟨row, hrow, hle, hgone⟩ := htampered
  rw [hgrown] at hrow hnum
  rcases List.mem_append.mp hrow with hold | hnew
  · obtain ⟨row', hrow', hsame⟩ := exists_of_forall₂ hagree hold
    exact hgone row' hrow' hsame
  · have := ((Numbered.append.mp hnum).2.bounds hnew).1
    omega

/-- **When an anchor keeps its promise.** On a chain built by appending, an anchor exported when
the chain had grown to it keeps its promise exactly as long as nothing more is appended. -/
theorem anchorLaw_iff (logger : AuditLogger) (chainId : String) (s₀ s₁ s₂ : Session) (n₀ n : Nat)
    (anchor : ChainHead) (hempty : Db.chain s₀.view chainId = [])
    (hbuilt : Grown logger chainId n₀ s₀ s₁) (hanchor : chainHead s₁.view chainId = some anchor)
    (hgrown : Grown logger chainId n s₁ s₂) :
    AnchorLaw logger.sha256 chainId anchor s₂.view ↔ n = 0 := by
  have hwell₀ : WellChained logger.sha256 (Db.chain s₀.view chainId) := by
    rw [hempty]
    exact ⟨trivial, trivial⟩
  obtain ⟨-, -, -, hwell₁⟩ := hbuilt.chain hwell₀
  obtain ⟨more, hlen, hmore, hwell₂⟩ := hgrown.chain hwell₁
  obtain ⟨hseq, htip, hhash⟩ := chainHead_spec hwell₁ hanchor
  have hdetects : ∀ d', Set.InjOn logger.sha256.hexdigest
      (hashedBytes (Db.chain s₂.view chainId ++ d'.chain chainId)) →
      Tampered s₂.view d' chainId anchor.sequenceNo →
      (verifyChain logger.sha256 d' chainId (some anchor)).ok = false :=
    fun d' hinj => anchor_detects hwell₁ hmore hwell₂.numbered hseq htip hinj
  constructor
  · rintro ⟨hok, -⟩
    obtain ⟨-, -, -, -, hlen₂⟩ := verifyChain_iff.mp hok
    rw [hmore, List.length_append] at hlen₂
    push_cast at hlen₂
    omega
  · rintro rfl
    rw [List.length_eq_zero_iff] at hlen
    rw [hlen, List.append_nil] at hmore
    refine ⟨verifyChain_iff.mpr ⟨hwell₂.numbered, hwell₂.linked, ?_, hhash, ?_⟩, hdetects⟩
    · rw [hmore]
      exact htip
    · rw [hmore]
      exact hseq

theorem first_append :
    Grown stateChangeLogger runsChain 1 (sessionAfter []) (sessionAfter [firstStateChange]) :=
  .append (.refl _) rfl (AuditLogger.append_exec (by decide) rfl hash_firstStateChange)

theorem second_append :
    Grown stateChangeLogger runsChain 1 (sessionAfter [firstStateChange])
      (sessionAfter [firstStateChange, secondStateChange]) :=
  .append (.refl _) rfl (AuditLogger.append_exec (by decide) rfl hash_secondStateChange)

/-- One more state change, and the anchor is no longer the head. -/
theorem anchorLaw_iff_stateChange :
    AnchorLaw stateChangeDigests runsChain stateChangeAnchor
      (sessionAfter [firstStateChange, secondStateChange]).view ↔ 1 = 0 :=
  anchorLaw_iff stateChangeLogger runsChain (sessionAfter []) (sessionAfter [firstStateChange])
    (sessionAfter [firstStateChange, secondStateChange]) 1 1 stateChangeAnchor rfl first_append rfl
    second_append

/-- An exported anchor that an honest append leaves behind does not verify. -/
theorem anchor_outgrown :
    Grown stateChangeLogger runsChain 1 (sessionAfter []) (sessionAfter [firstStateChange]) ∧
      chainHead (sessionAfter [firstStateChange]).view runsChain = some stateChangeAnchor ∧
      Grown stateChangeLogger runsChain 1 (sessionAfter [firstStateChange])
        (sessionAfter [firstStateChange, secondStateChange]) ∧
      ¬ AnchorLaw stateChangeDigests runsChain stateChangeAnchor
        (sessionAfter [firstStateChange, secondStateChange]).view := by
  refine ⟨first_append, rfl, second_append, fun h => ?_⟩
  obtain ⟨-, -, -, -, hlength⟩ := verifyChain_iff.mp h.1
  exact absurd hlength (by decide)

end Recon
