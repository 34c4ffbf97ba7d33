import ReconEngine.Audit.Logger
import ReconEngine.Chain.Commit

/-!
# Verifying an audit chain

`verifyChain` reads the entries of a chain in sequence order and reports the first one whose
number, version, predecessor or hash is not what it has to be; at the end it compares the head it
arrived at with the head the caller expects, if any. `verifyChain_iff` says what an accepted
chain is: numbered from one, linked, and ending in the expected head.

**What it does not establish.** That an accepted chain is the one that was written: a table
rewritten from its first entry on is accepted as well, unless a head is expected. That is
`Audit.Anchor`.
-/

set_option autoImplicit false

namespace Recon

open HashChain

inductive FailureKind where
  | sequenceGap
  | prevHashMismatch
  | hashMismatch
  | unsupportedVersion
  | headMismatch
deriving DecidableEq, Repr

structure ChainHead where
  sequenceNo : Int
  currentHash : String
deriving DecidableEq, Repr

structure VerificationResult where
  ok : Bool
  entriesChecked : Nat
  failureKind : Option FailureKind := none
  failureSequenceNo : Option Int := none
  detail : String := ""
deriving DecidableEq, Repr

def chainHead (d : Db) (chainId : String) : Option ChainHead :=
  (d.chain chainId).getLast?.map fun row => ⟨row.sequenceNo, row.currentHash⟩

def checkRow (sha256 : Sha256) (row : AuditLog) (expectedSeq : Int) (previousHash : Option String) :
    Option (FailureKind × String) :=
  if row.sequenceNo ≠ expectedSeq then
    some (.sequenceGap,
      "expected sequence " ++ toString expectedSeq ++ ", found " ++ toString row.sequenceNo)
  else if row.serialisationVersion ≠ serialisationVersion then
    some (.unsupportedVersion, "version " ++ toString row.serialisationVersion)
  else if row.prevHash ≠ previousHash then
    some (.prevHashMismatch, "prev_hash does not match the previous entry")
  else
    match computeHash sha256.hexdigest row.fields with
    | .error e => some (.hashMismatch, "entry cannot be re-serialised: " ++ e.message)
    | .ok recomputed =>
      if recomputed ≠ row.currentHash then
        some (.hashMismatch, "stored hash does not match the recomputed hash")
      else none

/-- The loop of `verify_chain`: the first failure, or the next expected number, the last hash and
how many entries were checked. -/
def verifyRows (sha256 : Sha256) :
    List AuditLog → Int → Option String → Nat → Except VerificationResult (Int × Option String × Nat)
  | [], expectedSeq, previousHash, checked => .ok (expectedSeq, previousHash, checked)
  | row :: rows, expectedSeq, previousHash, checked =>
    match checkRow sha256 row expectedSeq previousHash with
    | some (kind, detail) =>
      .error { ok := false, entriesChecked := checked, failureKind := some kind,
               failureSequenceNo := some row.sequenceNo, detail := detail }
    | none => verifyRows sha256 rows (expectedSeq + 1) (some row.currentHash) (checked + 1)

/-- The head a verified chain ends in; an empty hash counts as none. -/
def actualHead (expectedSeq : Int) (previousHash : Option String) : Option ChainHead :=
  match previousHash with
  | some hash => if hash = "" then none else some ⟨expectedSeq - 1, hash⟩
  | none => none

def ChainHead.repr : Option ChainHead → String
  | some h =>
    "ChainHead(sequence_no=" ++ toString h.sequenceNo ++ ", current_hash='" ++ h.currentHash ++ "')"
  | none => "None"

def verifyChain (sha256 : Sha256) (d : Db) (chainId : String) (expectedHead : Option ChainHead) :
    VerificationResult :=
  match verifyRows sha256 (d.chain chainId) 1 none 0 with
  | .error failure => failure
  | .ok (expectedSeq, previousHash, checked) =>
    if expectedHead.isSome && actualHead expectedSeq previousHash != expectedHead then
      { ok := false, entriesChecked := checked, failureKind := some .headMismatch,
        detail := "chain head is " ++ ChainHead.repr (actualHead expectedSeq previousHash) ++
          ", expected " ++ ChainHead.repr expectedHead }
    else { ok := true, entriesChecked := checked }

/-! ## What is accepted -/

/-- How the verifier reads an entry. -/
def auditReading (sha256 : Sha256) : Reading AuditLog String where
  stored row := row.currentHash
  prev row := row.prevHash
  digest row := (computeHash sha256.hexdigest row.fields).toOption

/-- The entries are numbered consecutively from `n` on. -/
def Numbered : Int → List AuditLog → Prop
  | _, [] => True
  | n, row :: rows => row.sequenceNo = n ∧ Numbered (n + 1) rows

/-- The hash of an entry fits when computing it again gives the same. -/
theorem digest_iff {sha256 : Sha256} {row : AuditLog} :
    (auditReading sha256).digest row = some row.currentHash ↔
      computeHash sha256.hexdigest row.fields = .ok row.currentHash := by
  simp only [auditReading]
  cases computeHash sha256.hexdigest row.fields <;> simp [Except.toOption]

/-- An entry whose hash can be computed has the supported version. -/
theorem version_of_computeHash {sha256 : ByteArray → String} {f : AuditEntryFields} {hash : String}
    (h : computeHash sha256 f = .ok hash) : f.serialisationVersion = serialisationVersion := by
  unfold computeHash at h
  cases hb : canonicalBytes f with
  | error e => rw [hb] at h; cases h
  | ok bytes => exact (canonicalBytes_ok hb).1

/-- One entry is accepted when its number, its predecessor and its hash are what they have to be. -/
theorem checkRow_none_iff {sha256 : Sha256} {row : AuditLog} {n : Int} {p : Option String} :
    checkRow sha256 row n p = none ↔ row.sequenceNo = n ∧ row.prevHash = p ∧
      (auditReading sha256).digest row = some row.currentHash := by
  rw [digest_iff]
  unfold checkRow
  constructor
  · intro h
    split_ifs at h with hn hv hp
    split at h
    · cases h
    · rename_i recomputed hhash
      split_ifs at h with heq
      exact ⟨not_not.mp hn, not_not.mp hp, by rw [hhash, not_not.mp heq]⟩
  · rintro ⟨hn, hp, hhash⟩
    have hv : row.serialisationVersion = serialisationVersion := version_of_computeHash hhash
    rw [if_neg (not_not.mpr hn), if_neg (not_not.mpr hv), if_neg (not_not.mpr hp), hhash]
    simp

theorem verifyRows_ok_iff {sha256 : Sha256} {rows : List AuditLog} {n n' : Int}
    {p p' : Option String} {k k' : Nat} :
    verifyRows sha256 rows n p k = .ok (n', p', k') ↔
      Numbered n rows ∧ Linked (auditReading sha256) p rows ∧ n' = n + rows.length ∧
        p' = tip (auditReading sha256) p rows ∧ k' = k + rows.length := by
  induction rows generalizing n p k with
  | nil =>
    simp only [verifyRows, Except.ok.injEq, Prod.mk.injEq, Numbered, Linked, tip, List.length_nil,
      true_and]
    constructor
    · rintro ⟨rfl, rfl, rfl⟩
      exact ⟨by simp, rfl, rfl⟩
    · rintro ⟨rfl, rfl, rfl⟩
      exact ⟨by simp, rfl, rfl⟩
  | cons row rows ih =>
    simp only [verifyRows, Numbered, Linked, tip, List.length_cons]
    cases hc : checkRow sha256 row n p with
    | none =>
      obtain ⟨hn, hp, hd⟩ := checkRow_none_iff.mp hc
      simp only [ih, hn, true_and]
      constructor
      · rintro ⟨hnum, hlink, rfl, hp', rfl⟩
        exact ⟨hnum, ⟨hp, hd, hlink⟩, by push_cast; omega, hp', by omega⟩
      · rintro ⟨hnum, ⟨-, -, hlink⟩, hn', hp', hk'⟩
        exact ⟨hnum, hlink, by push_cast at hn'; omega, hp', by omega⟩
    | some failure =>
      constructor
      · intro h
        cases h
      · rintro ⟨⟨hn, -⟩, ⟨hp, hd, -⟩, -⟩
        rw [checkRow_none_iff.mpr ⟨hn, hp, hd⟩] at hc
        cases hc

/-- The head a check arrives at is that of the last entry. -/
theorem actualHead_eq_some {n : Int} {p : Option String} {head : ChainHead} :
    actualHead n p = some head ↔
      p = some head.currentHash ∧ head.currentHash ≠ "" ∧ head.sequenceNo = n - 1 := by
  obtain ⟨seq, hash⟩ := head
  cases p with
  | none => simp [actualHead]
  | some h =>
    simp only [actualHead]
    split
    · rename_i he
      simp only [he, Option.some.injEq]
      constructor
      · intro h
        cases h
      · rintro ⟨h1, h2, -⟩
        exact absurd h1.symm h2
    · rename_i he
      simp only [Option.some.injEq, ChainHead.mk.injEq]
      constructor
      · rintro ⟨rfl, rfl⟩
        exact ⟨rfl, he, rfl⟩
      · rintro ⟨rfl, -, rfl⟩
        exact ⟨rfl, rfl⟩

/-- A failure says that the chain is not in order. -/
theorem verifyRows_error_ok {sha256 : Sha256} {rows : List AuditLog} {n : Int} {p : Option String}
    {k : Nat} {failure : VerificationResult} (h : verifyRows sha256 rows n p k = .error failure) :
    failure.ok = false := by
  induction rows generalizing n p k with
  | nil => cases h
  | cons row rows ih =>
    simp only [verifyRows] at h
    split at h
    · cases h
      rfl
    · exact ih h

/-- **What verification with an expected head accepts.** -/
theorem verifyChain_iff {sha256 : Sha256} {d : Db} {chainId : String} {head : ChainHead} :
    (verifyChain sha256 d chainId (some head)).ok = true ↔
      Numbered 1 (d.chain chainId) ∧ Linked (auditReading sha256) none (d.chain chainId) ∧
        tip (auditReading sha256) none (d.chain chainId) = some head.currentHash ∧
        head.currentHash ≠ "" ∧ head.sequenceNo = (d.chain chainId).length := by
  unfold verifyChain
  cases hv : verifyRows sha256 (d.chain chainId) 1 none 0 with
  | error failure =>
    constructor
    · intro h
      rw [verifyRows_error_ok hv] at h
      cases h
    · rintro ⟨hnum, hlink, -⟩
      rw [verifyRows_ok_iff.mpr ⟨hnum, hlink, rfl, rfl, rfl⟩] at hv
      cases hv
  | ok result =>
    obtain ⟨n, p, k⟩ := result
    obtain ⟨hnum, hlink, hn, hp, -⟩ := verifyRows_ok_iff.mp hv
    simp only [Option.isSome_some, Bool.true_and, bne_iff_ne, ne_eq]
    by_cases hhead : actualHead n p = some head
    · rw [if_neg (not_not.mpr hhead)]
      obtain ⟨h1, h2, h3⟩ := actualHead_eq_some.mp hhead
      exact ⟨fun _ => ⟨hnum, hlink, hp ▸ h1, h2, by omega⟩, fun _ => rfl⟩
    · rw [if_pos hhead]
      constructor
      · intro h
        cases h
      · rintro ⟨-, -, h1, h2, h3⟩
        exact absurd (actualHead_eq_some.mpr ⟨hp.trans h1, h2, by omega⟩) hhead

end Recon
