import ReconEngine.Model.Tables
import ReconEngine.Json.Text
import Mathlib.Tactic.Ring

/-!
# Canonical serialisation of audit entries

`canonicalBytes` is what an entry's hash is computed over: one JSON object with sorted keys and
no white space, the moment of the event as UTC text with six fractional digits, floats and
foreign values rejected with the path they were found at. `canonicalBytes_inj` says that the
bytes determine the entry: every scalar column, and every JSON column up to the order of its
keys (`SameContent`).

**What it does not establish.** That two entries with one text were handed over as the same Python
values: a tuple and a list have one text (`Audit.Encoding`). Nor that a hash of the bytes separates
them, which is the premise of `Audit.Anchor`.
-/

set_option autoImplicit false

namespace Recon

open JsonText

/-! ## Timestamps -/

/-- Year, month and day of a day counted from 1970-01-01. Years begin in March, so that the leap
day is the last one; `era`, `century`, `cycle` and `year` count 400, 100, 4 and 1 of them. -/
def civil (days : Int) : Int × Int × Int :=
  let z := days + 719468
  let era := z / 146097
  let inEra := z - era * 146097
  let century := min (inEra / 36524) 3
  let inCentury := inEra - century * 36524
  let cycle := inCentury / 1461
  let inCycle := inCentury - cycle * 1461
  let year := min (inCycle / 365) 3
  let inYear := inCycle - year * 365
  let month := (5 * inYear + 2) / 153
  let y := era * 400 + century * 100 + cycle * 4 + year
  (if month < 10 then y else y + 1, if month < 10 then month + 3 else month - 9,
    inYear - (153 * month + 2) / 5 + 1)

/-- The last `width` decimal digits of `n`. -/
def padded : Nat → Nat → List Char
  | 0, _ => []
  | width + 1, n => padded width (n / 10) ++ [Nat.digitChar (n % 10)]

/-- `%Y-%m-%dT%H:%M:%S.%fZ` of an instant. -/
def timestampText (t : Instant) : List Char :=
  let date := civil (t / 86400000000)
  let rest := (t % 86400000000).toNat
  renderInt date.1 ++ '-' :: (padded 2 date.2.1.toNat ++ '-' :: (padded 2 date.2.2.toNat ++ 'T' ::
    (padded 2 (rest / 3600000000) ++ ':' :: (padded 2 (rest / 60000000 % 60) ++ ':' ::
      (padded 2 (rest / 1000000 % 60) ++ '.' :: (padded 6 (rest % 1000000) ++ ['Z']))))))

/-- A Python datetime: the instant it stands for, and whether it carries a time zone. -/
structure Datetime where
  utc : Instant
  aware : Bool := true
deriving DecidableEq, Repr

/-! ## Entries -/

structure AuditEntryFields where
  eventId : Id
  chainId : String
  sequenceNo : Int
  occurredAt : Datetime
  actorType : String
  actorId : String
  actionType : String
  affectedRecords : PyValue
  beforeState : PyValue
  afterState : PyValue
  rationale : String
  prevHash : Option String
  serialisationVersion : Int

def serialisationVersion : Int := 1

mutual

/-- `_validate_json_value`, handing over the accepted value as JSON. -/
def validateJsonValue : PyValue → String → Except ReconError Json
  | .none, _ => .ok .null
  | .bool b, _ => .ok (.bool b)
  | .int n, _ => .ok (.num n)
  | .str s, _ => .ok (.str s)
  | .float _, path =>
    .error (.canonicalisation (path ++ ": floats are not allowed in audit state; use str or int"))
  | .list items, path => (validateItems items path 0).map .arr
  | .tuple items, path => (validateItems items path 0).map .arr
  | .dict entries, path => (validateEntries entries path).map .obj
  | .other typeName, path => .error (.canonicalisation (path ++ ": unsupported type " ++ typeName))

def validateItems : List PyValue → String → Nat → Except ReconError (List Json)
  | [], _, _ => .ok []
  | item :: items, path, index =>
    match validateJsonValue item (path ++ "[" ++ toString index ++ "]") with
    | .error e => .error e
    | .ok j => (validateItems items path (index + 1)).map (j :: ·)

def validateEntries : List (PyKey × PyValue) → String → Except ReconError (List (String × Json))
  | [], _ => .ok []
  | (.other repr, _) :: _, path =>
    .error (.canonicalisation (path ++ ": dict keys must be strings, got " ++ repr))
  | (.str key, item) :: entries, path =>
    match validateJsonValue item (path ++ "." ++ key) with
    | .error e => .error e
    | .ok j => (validateEntries entries path).map ((key, j) :: ·)

end

/-- `"%032x"` of a number: its hexadecimal digits, 32 at least. -/
def hexText (n : Nat) : List Char := (Nat.toDigits 16 n).leftpad 32 '0'

/-- `str` of an identifier, which is a UUID: hexadecimal digits in five groups. -/
def idText (id : Id) : String :=
  let hex := hexText id
  String.ofList (hex.take 8 ++ '-' :: ((hex.drop 8).take 4 ++ '-' :: ((hex.drop 12).take 4 ++ '-' ::
    ((hex.drop 16).take 4 ++ '-' :: hex.drop 20))))

/-- The object an entry is serialised as, before its keys are sorted. -/
def payload (f : AuditEntryFields) (affected before after : Json) : Json :=
  .obj [
    ("v", .num f.serialisationVersion),
    ("event_id", .str (idText f.eventId)),
    ("chain_id", .str f.chainId),
    ("seq", .num f.sequenceNo),
    ("occurred_at", .str (String.ofList (timestampText f.occurredAt.utc))),
    ("actor_type", .str f.actorType),
    ("actor_id", .str f.actorId),
    ("action_type", .str f.actionType),
    ("affected_records", affected),
    ("before_state", before),
    ("after_state", after),
    ("rationale", .str f.rationale),
    ("prev_hash", match f.prevHash with
      | some h => .str h
      | none => .null)]

def canonicalBytes (f : AuditEntryFields) : Except ReconError ByteArray :=
  if f.serialisationVersion ≠ serialisationVersion then
    .error (.canonicalisation
      ("unsupported serialisation version " ++ toString f.serialisationVersion))
  else if f.occurredAt.aware = false then
    .error (.canonicalisation "occurred_at must be timezone-aware")
  else
    match validateJsonValue f.affectedRecords "affected_records",
      validateJsonValue f.beforeState "before_state",
      validateJsonValue f.afterState "after_state" with
    | .ok affected, .ok before, .ok after =>
      .ok (String.ofList (render (payload f affected before after).sorted)).toUTF8
    | .error e, _, _ => .error e
    | _, .error e, _ => .error e
    | _, _, .error e => .error e

/-- `hashlib.sha256(..).hexdigest()` of the canonical bytes; `sha256` is the digest's hex text. -/
def computeHash (sha256 : ByteArray → String) (f : AuditEntryFields) : Except ReconError String :=
  (canonicalBytes f).map sha256

/-! ## The date and the clock can be read back -/

/-- A quotient that is capped at three leaves a remainder within its bounds. -/
private theorem capped_bounds {x q top : Int} (h0 : 0 ≤ x) (hq : 0 < q) (h : x ≤ 3 * q + top)
    (htop : q ≤ top + 1) :
    0 ≤ min (x / q) 3 ∧ min (x / q) 3 ≤ 3 ∧ 0 ≤ x - min (x / q) 3 * q ∧
      x - min (x / q) 3 * q ≤ top := by
  have h1 : 0 ≤ x / q := Int.ediv_nonneg h0 (Int.le_of_lt hq)
  have h2 : x / q * q ≤ x := Int.ediv_mul_le x (Int.ne_of_gt hq)
  have h3 : x < (x / q + 1) * q := Int.lt_ediv_add_one_mul_self x hq
  rcases Int.le_total (x / q) 3 with hle | hge
  · rw [Int.min_eq_left hle]
    have : (x / q + 1) * q = x / q * q + q := by rw [Int.add_mul, Int.one_mul]
    refine ⟨h1, hle, by omega, by omega⟩
  · rw [Int.min_eq_right hge]
    have h4 : 3 * q ≤ x / q * q := Int.mul_le_mul_of_nonneg_right hge (Int.le_of_lt hq)
    refine ⟨by omega, by omega, by omega, by omega⟩

/-- The counts that a date is made of, with their ranges. -/
theorem civil_parts (days : Int) : ∃ era century cycle year inYear month : Int,
    (0 ≤ century ∧ century ≤ 3) ∧ (0 ≤ cycle ∧ cycle ≤ 24) ∧ (0 ≤ year ∧ year ≤ 3) ∧
    (0 ≤ inYear ∧ inYear ≤ 365) ∧ month = (5 * inYear + 2) / 153 ∧
    days + 719468 = era * 146097 + century * 36524 + cycle * 1461 + year * 365 + inYear ∧
    civil days =
      (if month < 10 then era * 400 + century * 100 + cycle * 4 + year
        else era * 400 + century * 100 + cycle * 4 + year + 1,
      if month < 10 then month + 3 else month - 9, inYear - (153 * month + 2) / 5 + 1) := by
  have hera : 0 ≤ days + 719468 - (days + 719468) / 146097 * 146097 ∧
      days + 719468 - (days + 719468) / 146097 * 146097 ≤ 3 * 36524 + 36524 := by omega
  obtain ⟨hc0, hc3, hj0, hj⟩ := capped_bounds hera.1 (by decide) hera.2 (by decide)
  obtain ⟨inCentury, hin⟩ : ∃ c, c = days + 719468 - (days + 719468) / 146097 * 146097 -
    min ((days + 719468 - (days + 719468) / 146097 * 146097) / 36524) 3 * 36524 := ⟨_, rfl⟩
  rw [← hin] at hj0 hj
  have hcycle : 0 ≤ inCentury / 1461 ∧ inCentury / 1461 ≤ 24 := by omega
  have hk : 0 ≤ inCentury - inCentury / 1461 * 1461 ∧
      inCentury - inCentury / 1461 * 1461 ≤ 3 * 365 + 365 := by omega
  obtain ⟨hy0, hy3, ho0, ho⟩ := capped_bounds hk.1 (by decide) hk.2 (by decide)
  obtain ⟨inYear, hio⟩ : ∃ c, c = inCentury - inCentury / 1461 * 1461 -
    min ((inCentury - inCentury / 1461 * 1461) / 365) 3 * 365 := ⟨_, rfl⟩
  rw [← hio] at ho0 ho
  refine ⟨(days + 719468) / 146097, _, _, _, inYear, _, ⟨hc0, hc3⟩, hcycle, ⟨hy0, hy3⟩, ⟨ho0, ho⟩,
    rfl, ?_, ?_⟩
  · rw [hio, hin]
    ring
  · simp only [civil]
    rw [hio, hin]

/-- A date determines its day. -/
theorem civil_inj {a b : Int} (h : civil a = civil b) : a = b := by
  obtain ⟨ea, ca, qa, ya, oa, ma, hca, hqa, hya, hoa, hma, ha, hciva⟩ := civil_parts a
  obtain ⟨eb, cb, qb, yb, ob, mb, hcb, hqb, hyb, hob, hmb, hb, hcivb⟩ := civil_parts b
  rw [hciva, hcivb, Prod.mk.injEq, Prod.mk.injEq] at h
  obtain ⟨hy, hm, hd⟩ := h
  have hma' : 0 ≤ ma ∧ ma ≤ 11 := by omega
  have hmb' : 0 ≤ mb ∧ mb ≤ 11 := by omega
  have hmonth : ma = mb := by
    clear hy hd ha hb hma hmb
    split at hm <;> split at hm <;> omega
  subst hmonth
  have hinYear : oa = ob := by omega
  have hyears : ea * 400 + ca * 100 + qa * 4 + ya = eb * 400 + cb * 100 + qb * 4 + yb := by
    split at hy <;> omega
  clear hy hm hd hciva hcivb
  have hera : ea = eb := by omega
  have hcentury : ca = cb := by omega
  have hcycle : qa = qb := by omega
  omega

/-! ## Fixed-width numbers -/

private theorem digitChar_inj {m n : Nat} (hm : m < 10) (hn : n < 10)
    (h : Nat.digitChar m = Nat.digitChar n) : m = n := by
  have table : ∀ a < 10, ∀ b < 10, Nat.digitChar a = Nat.digitChar b → a = b := by decide
  exact table m hm n hn h

theorem padded_length (width n : Nat) : (padded width n).length = width := by
  induction width generalizing n with
  | zero => rfl
  | succ width ih => simp only [padded, List.length_append, ih, List.length_singleton]

/-- Numbers of a fixed width are told apart by their texts. -/
theorem padded_inj {width m n : Nat} (hm : m < 10 ^ width) (hn : n < 10 ^ width)
    (h : padded width m = padded width n) : m = n := by
  induction width generalizing m n with
  | zero => omega
  | succ width ih =>
    obtain ⟨hhigh, hlow⟩ := List.append_inj' h rfl
    have hhigh' : m / 10 = n / 10 := ih (by omega) (by omega) hhigh
    have hlow' := digitChar_inj (Nat.mod_lt m (by decide)) (Nat.mod_lt n (by decide))
      (List.cons.inj hlow).1
    omega

/-- A fixed-width number ends where its width says. -/
theorem padded_unique {width m n : Nat} {s t : List Char} (hm : m < 10 ^ width)
    (hn : n < 10 ^ width) (h : padded width m ++ s = padded width n ++ t) : m = n ∧ s = t := by
  obtain ⟨hp, hst⟩ := List.append_inj h (by rw [padded_length, padded_length])
  exact ⟨padded_inj hm hn hp, hst⟩

theorem civil_ranges (days : Int) : (0 ≤ (civil days).2.1 ∧ (civil days).2.1 < 100) ∧
    0 ≤ (civil days).2.2 ∧ (civil days).2.2 < 100 := by
  obtain ⟨e, c, q, y, o, m, hc, hq, hy, ho, hm, hdays, hciv⟩ := civil_parts days
  have hm' : 0 ≤ m ∧ m ≤ 11 := by omega
  rw [hciv]
  refine ⟨?_, ?_⟩
  · show 0 ≤ (if m < 10 then m + 3 else m - 9) ∧ (if m < 10 then m + 3 else m - 9) < 100
    split <;> omega
  · show 0 ≤ o - (153 * m + 2) / 5 + 1 ∧ o - (153 * m + 2) / 5 + 1 < 100
    omega

/-- The text determines the instant. -/
theorem timestampText_inj {t u : Int} (h : timestampText t = timestampText u) : t = u := by
  obtain ⟨⟨hm0, hm⟩, hd0, hd⟩ := civil_ranges (t / 86400000000)
  obtain ⟨⟨hm0', hm'⟩, hd0', hd'⟩ := civil_ranges (u / 86400000000)
  simp only [timestampText] at h
  obtain ⟨hyear, h⟩ := renderInt_unique (stops_cons (by decide)) (stops_cons (by decide)) h
  obtain ⟨hmonth, h⟩ := padded_unique (by omega) (by omega) (List.cons.inj h).2
  obtain ⟨hday, h⟩ := padded_unique (by omega) (by omega) (List.cons.inj h).2
  obtain ⟨hhour, h⟩ := padded_unique (by omega) (by omega) (List.cons.inj h).2
  obtain ⟨hminute, h⟩ := padded_unique (by omega) (by omega) (List.cons.inj h).2
  obtain ⟨hsecond, h⟩ := padded_unique (by omega) (by omega) (List.cons.inj h).2
  obtain ⟨hmicro, -⟩ := padded_unique (by omega) (by omega) (List.cons.inj h).2
  have hdate : civil (t / 86400000000) = civil (u / 86400000000) :=
    Prod.ext hyear (Prod.ext (by omega) (by omega))
  have hdays := civil_inj hdate
  clear hdate hyear hmonth hday h hm0 hm hd0 hd hm0' hm' hd0' hd'
  omega

/-! ## Identifiers -/

/-- The number that hexadecimal digits write. -/
def hexValue (cs : List Char) : Nat := cs.foldl (fun n c => 16 * n + hexVal c) 0

private theorem hexVal_digitChar {d : Nat} (h : d < 16) : hexVal (Nat.digitChar d) = d := by
  have table : ∀ a < 16, hexVal (Nat.digitChar a) = a := by decide
  exact table d h

theorem hexValue_toDigits (n : Nat) : hexValue (Nat.toDigits 16 n) = n := by
  induction n using Nat.strongRecOn with
  | ind n ih =>
    rcases Nat.lt_or_ge n 16 with hlt | hge
    · rw [Nat.toDigits_of_lt_base hlt, hexValue, List.foldl_cons, List.foldl_nil,
        hexVal_digitChar hlt]
      omega
    · rw [Nat.toDigits_of_base_le (by decide) hge, hexValue, List.foldl_append]
      have hhigh := ih (n / 16) (by omega)
      rw [hexValue] at hhigh
      rw [hhigh, List.foldl_cons, List.foldl_nil, hexVal_digitChar (Nat.mod_lt n (by decide))]
      omega

/-- Leading zeros count for nothing. -/
theorem hexValue_hexText (n : Nat) : hexValue (hexText n) = n := by
  have hzeros : ∀ k : Nat, (List.replicate k '0').foldl (fun n c => 16 * n + hexVal c) 0 = 0 := by
    intro k
    induction k with
    | zero => rfl
    | succ k ih => rw [List.replicate_succ, List.foldl_cons, show hexVal '0' = 0 from rfl]; exact ih
  rw [hexText, List.leftpad, hexValue, List.foldl_append, hzeros]
  exact hexValue_toDigits n

theorem length_hexText (n : Nat) : 32 ≤ (hexText n).length := by
  rw [hexText, List.length_leftpad]
  exact le_max_left _ _

/-- Identifiers are told apart by their texts. -/
theorem idText_inj {a b : Id} (h : idText a = idText b) : a = b := by
  have ha := length_hexText a
  have hb := length_hexText b
  simp only [idText] at h
  -- The groups but the last have their lengths, so the hyphens are at the same places.
  obtain ⟨h₁, h⟩ := List.append_inj (String.ofList_injective h)
    (by rw [List.length_take, List.length_take]; omega)
  obtain ⟨h₂, h⟩ := List.append_inj (List.cons.inj h).2
    (by simp only [List.length_take, List.length_drop]; omega)
  obtain ⟨h₃, h⟩ := List.append_inj (List.cons.inj h).2
    (by simp only [List.length_take, List.length_drop]; omega)
  obtain ⟨h₄, h⟩ := List.append_inj (List.cons.inj h).2
    (by simp only [List.length_take, List.length_drop]; omega)
  have hgroups : ∀ hex : List Char, hex = hex.take 8 ++ ((hex.drop 8).take 4 ++
      ((hex.drop 12).take 4 ++ ((hex.drop 16).take 4 ++ hex.drop 20))) := by
    intro hex
    have hstep : ∀ m : Nat, (hex.drop m).take 4 ++ hex.drop (m + 4) = hex.drop m := by
      intro m
      rw [← List.drop_drop, List.take_append_drop]
    rw [hstep 16, hstep 12, hstep 8, List.take_append_drop]
  have hhex : hexText a = hexText b := by
    rw [hgroups (hexText a), hgroups (hexText b), h₁, h₂, h₃, h₄, (List.cons.inj h).2]
  rw [← hexValue_hexText a, ← hexValue_hexText b, hhex]

/-! ## What keeps an entry from being hashed -/

def ReconError.isCanonicalisation : ReconError → Bool
  | .canonicalisation _ => true
  | _ => false

theorem isCanonicalisation_map {α β : Type} {f : α → β} {x : Except ReconError α}
    (hx : ∀ e, x = .error e → e.isCanonicalisation = true) {e : ReconError}
    (h : x.map f = .error e) : e.isCanonicalisation = true := by
  cases x with
  | error e' => exact Except.error.inj h ▸ hx e' rfl
  | ok _ => cases h

mutual

/-- Whatever keeps a value from being serialised is one kind of error. -/
theorem validateJsonValue_error : ∀ (v : PyValue) (path : String) (e : ReconError),
    validateJsonValue v path = .error e → e.isCanonicalisation = true
  | .none, _, _, h => by cases h
  | .bool _, _, _, h => by cases h
  | .int _, _, _, h => by cases h
  | .str _, _, _, h => by cases h
  | .float _, _, _, h => by
    cases h
    rfl
  | .other _, _, _, h => by
    cases h
    rfl
  | .list items, path, _, h =>
    isCanonicalisation_map (fun e => validateItems_error items path 0 e) h
  | .tuple items, path, _, h =>
    isCanonicalisation_map (fun e => validateItems_error items path 0 e) h
  | .dict entries, path, _, h =>
    isCanonicalisation_map (fun e => validateEntries_error entries path e) h

theorem validateItems_error : ∀ (items : List PyValue) (path : String) (index : Nat)
    (e : ReconError), validateItems items path index = .error e → e.isCanonicalisation = true
  | [], _, _, _, h => by cases h
  | item :: items, path, index, e, h => by
    rw [validateItems] at h
    cases hitem : validateJsonValue item (path ++ "[" ++ toString index ++ "]") with
    | error e' =>
      simp only [hitem] at h
      exact Except.error.inj h ▸ validateJsonValue_error item _ e' hitem
    | ok j =>
      simp only [hitem] at h
      exact isCanonicalisation_map (fun e => validateItems_error items path (index + 1) e) h

theorem validateEntries_error : ∀ (entries : List (PyKey × PyValue)) (path : String)
    (e : ReconError), validateEntries entries path = .error e → e.isCanonicalisation = true
  | [], _, _, h => by cases h
  | (.other _, _) :: _, _, _, h => by
    cases h
    rfl
  | (.str key, item) :: entries, path, e, h => by
    rw [validateEntries] at h
    cases hitem : validateJsonValue item (path ++ "." ++ key) with
    | error e' =>
      simp only [hitem] at h
      exact Except.error.inj h ▸ validateJsonValue_error item _ e' hitem
    | ok j =>
      simp only [hitem] at h
      exact isCanonicalisation_map (fun e => validateEntries_error entries path e) h

end

/-- Only canonicalisation keeps an entry from being serialised. -/
theorem canonicalBytes_error {f : AuditEntryFields} {e : ReconError}
    (h : canonicalBytes f = .error e) : e.isCanonicalisation = true := by
  unfold canonicalBytes at h
  split at h
  · exact Except.error.inj h ▸ rfl
  split at h
  · exact Except.error.inj h ▸ rfl
  split at h
  · cases h
  · rename_i herror
    exact Except.error.inj h ▸ validateJsonValue_error _ _ _ herror
  · rename_i herror _
    exact Except.error.inj h ▸ validateJsonValue_error _ _ _ herror
  · rename_i herror _ _
    exact Except.error.inj h ▸ validateJsonValue_error _ _ _ herror

/-- Only canonicalisation keeps an entry from being hashed. -/
theorem computeHash_error {sha256 : ByteArray → String} {f : AuditEntryFields} {e : ReconError}
    (h : computeHash sha256 f = .error e) : e.isCanonicalisation = true :=
  isCanonicalisation_map (fun _ => canonicalBytes_error) h

/-! ## What can be hashed -/

/-- The value is accepted wherever it stands. -/
def PyValue.Accepted (v : PyValue) : Prop := ∀ path, ∃ j, validateJsonValue v path = .ok j

namespace PyValue

@[simp] theorem accepted_none : PyValue.none.Accepted := fun _ => ⟨_, rfl⟩
@[simp] theorem accepted_bool (b : Bool) : (PyValue.bool b).Accepted := fun _ => ⟨_, rfl⟩
@[simp] theorem accepted_int (n : Int) : (PyValue.int n).Accepted := fun _ => ⟨_, rfl⟩
@[simp] theorem accepted_str (s : String) : (PyValue.str s).Accepted := fun _ => ⟨_, rfl⟩

/-- A list is accepted where its items are. -/
theorem accepted_list {items : List PyValue} (h : ∀ v ∈ items, v.Accepted) :
    (PyValue.list items).Accepted := by
  have hitems : ∀ (items : List PyValue) (path : String) (index : Nat), (∀ v ∈ items, v.Accepted) →
      ∃ js, validateItems items path index = .ok js := by
    intro items path
    induction items with
    | nil => exact fun _ _ => ⟨_, rfl⟩
    | cons item items ih =>
      intro index hall
      obtain ⟨j, hj⟩ := hall item List.mem_cons_self (path ++ "[" ++ toString index ++ "]")
      obtain ⟨js, hjs⟩ := ih (index + 1) fun v hv => hall v (List.mem_cons_of_mem item hv)
      refine ⟨j :: js, ?_⟩
      simp only [validateItems, hj, hjs, Except.map]
  intro path
  obtain ⟨js, hjs⟩ := hitems items path 0 h
  exact ⟨.arr js, by simp only [validateJsonValue, hjs, Except.map]⟩

/-- A dictionary is accepted where its keys are texts and its values are accepted. -/
theorem accepted_dict {entries : List (PyKey × PyValue)}
    (h : ∀ entry ∈ entries, (∃ key, entry.1 = .str key) ∧ entry.2.Accepted) :
    (PyValue.dict entries).Accepted := by
  have hentries : ∀ (entries : List (PyKey × PyValue)) (path : String),
      (∀ entry ∈ entries, (∃ key, entry.1 = .str key) ∧ entry.2.Accepted) →
      ∃ js, validateEntries entries path = .ok js := by
    intro entries path
    induction entries with
    | nil => exact fun _ => ⟨_, rfl⟩
    | cons entry entries ih =>
      intro hall
      obtain ⟨key, item⟩ := entry
      obtain ⟨⟨name, rfl⟩, hitem⟩ := hall _ List.mem_cons_self
      obtain ⟨j, hj⟩ := hitem (path ++ "." ++ name)
      obtain ⟨js, hjs⟩ := ih fun e he => hall e (List.mem_cons_of_mem _ he)
      refine ⟨(name, j) :: js, ?_⟩
      simp only [validateEntries, hj, hjs, Except.map]
  intro path
  obtain ⟨js, hjs⟩ := hentries entries path h
  exact ⟨.obj js, by simp only [validateJsonValue, hjs, Except.map]⟩

end PyValue

/-- An entry of accepted values, with a time that knows its zone, has a hash. -/
theorem computeHash_accepted {sha256 : ByteArray → String} {f : AuditEntryFields}
    (hversion : f.serialisationVersion = serialisationVersion)
    (haware : f.occurredAt.aware = true) (haffected : f.affectedRecords.Accepted)
    (hbefore : f.beforeState.Accepted) (hafter : f.afterState.Accepted) :
    ∃ hash, computeHash sha256 f = .ok hash := by
  obtain ⟨affected, hok⟩ := haffected "affected_records"
  obtain ⟨before, hok'⟩ := hbefore "before_state"
  obtain ⟨after, hok''⟩ := hafter "after_state"
  have hbytes : canonicalBytes f =
      .ok (String.ofList (render (payload f affected before after).sorted)).toUTF8 := by
    simp [canonicalBytes, hversion, haware, hok, hok', hok'']
  unfold computeHash
  rw [hbytes]
  exact ⟨_, rfl⟩

/-! ## The bytes determine the entry -/

mutual

/-- Whether a value is accepted, and as what, does not depend on the path it is reported under. -/
theorem validateJsonValue_path : ∀ (v : PyValue) (p q : String) (j : Json),
    validateJsonValue v p = .ok j → validateJsonValue v q = .ok j
  | .none, _, _, _, h => h
  | .bool _, _, _, _, h => h
  | .int _, _, _, _, h => h
  | .str _, _, _, _, h => h
  | .float _, _, _, _, h => by cases h
  | .other _, _, _, _, h => by cases h
  | .list items, p, q, j, h => by
    rw [validateJsonValue] at h ⊢
    cases hi : validateItems items p 0 with
    | error e => rw [hi] at h; cases h
    | ok js => rw [hi] at h; rw [validateItems_path items p q 0 0 js hi]; exact h
  | .tuple items, p, q, j, h => by
    rw [validateJsonValue] at h ⊢
    cases hi : validateItems items p 0 with
    | error e => rw [hi] at h; cases h
    | ok js => rw [hi] at h; rw [validateItems_path items p q 0 0 js hi]; exact h
  | .dict entries, p, q, j, h => by
    rw [validateJsonValue] at h ⊢
    cases hi : validateEntries entries p with
    | error e => rw [hi] at h; cases h
    | ok js => rw [hi] at h; rw [validateEntries_path entries p q js hi]; exact h

theorem validateItems_path : ∀ (items : List PyValue) (p q : String) (m n : Nat) (js : List Json),
    validateItems items p m = .ok js → validateItems items q n = .ok js
  | [], _, _, _, _, _, h => h
  | item :: items, p, q, m, n, js, h => by
    rw [validateItems] at h ⊢
    cases hi : validateJsonValue item (p ++ "[" ++ toString m ++ "]") with
    | error e => simp only [hi] at h; cases h
    | ok j =>
      simp only [hi] at h
      simp only [validateJsonValue_path item _ (q ++ "[" ++ toString n ++ "]") j hi]
      cases hr : validateItems items p (m + 1) with
      | error e => rw [hr] at h; cases h
      | ok rest => rw [hr] at h; rw [validateItems_path items p q (m + 1) (n + 1) rest hr]; exact h

theorem validateEntries_path : ∀ (entries : List (PyKey × PyValue)) (p q : String)
    (js : List (String × Json)), validateEntries entries p = .ok js →
      validateEntries entries q = .ok js
  | [], _, _, _, h => h
  | (.other _, _) :: _, _, _, _, h => by cases h
  | (.str key, item) :: entries, p, q, js, h => by
    rw [validateEntries] at h ⊢
    cases hi : validateJsonValue item (p ++ "." ++ key) with
    | error e => simp only [hi] at h; cases h
    | ok j =>
      simp only [hi] at h
      simp only [validateJsonValue_path item _ (q ++ "." ++ key) j hi]
      cases hr : validateEntries entries p with
      | error e => rw [hr] at h; cases h
      | ok rest => rw [hr] at h; rw [validateEntries_path entries p q rest hr]; exact h

end

/-- The JSON value of a column, keys sorted; `none` when it cannot be serialised. -/
def PyValue.json (v : PyValue) : Option Json :=
  match validateJsonValue v "" with
  | .ok j => some j.sorted
  | .error _ => Option.none

theorem PyValue.json_of_ok {v : PyValue} {path : String} {j : Json}
    (h : validateJsonValue v path = .ok j) : v.json = some j.sorted := by
  rw [PyValue.json, validateJsonValue_path v path "" j h]

/-- The entries agree in every column that is hashed, JSON columns as JSON. -/
structure SameContent (f g : AuditEntryFields) : Prop where
  eventId : f.eventId = g.eventId
  chainId : f.chainId = g.chainId
  sequenceNo : f.sequenceNo = g.sequenceNo
  occurredAt : f.occurredAt = g.occurredAt
  actorType : f.actorType = g.actorType
  actorId : f.actorId = g.actorId
  actionType : f.actionType = g.actionType
  affectedRecords : f.affectedRecords.json = g.affectedRecords.json
  beforeState : f.beforeState.json = g.beforeState.json
  afterState : f.afterState.json = g.afterState.json
  rationale : f.rationale = g.rationale
  prevHash : f.prevHash = g.prevHash
  serialisationVersion : f.serialisationVersion = g.serialisationVersion

/-- What an entry that can be serialised is serialised as. -/
theorem canonicalBytes_ok {f : AuditEntryFields} {bytes : ByteArray}
    (h : canonicalBytes f = .ok bytes) :
    f.serialisationVersion = serialisationVersion ∧ f.occurredAt.aware = true ∧
      ∃ affected before after, validateJsonValue f.affectedRecords "affected_records" = .ok affected ∧
        validateJsonValue f.beforeState "before_state" = .ok before ∧
        validateJsonValue f.afterState "after_state" = .ok after ∧
        bytes = (String.ofList (render (payload f affected before after).sorted)).toUTF8 := by
  unfold canonicalBytes at h
  split at h
  · cases h
  rename_i hv
  split at h
  · cases h
  rename_i ha
  split at h
  · rename_i affected before after haff hbef haft
    exact ⟨not_not.mp hv, by simpa using ha, affected, before, after, haff, hbef, haft,
      (Except.ok.inj h).symm⟩
  all_goals cases h

/-- The members of an entry come in the order of their keys. -/
theorem payload_sorted (f : AuditEntryFields) (affected before after : Json) :
    (payload f affected before after).sorted = .obj [
      ("action_type", .str f.actionType),
      ("actor_id", .str f.actorId),
      ("actor_type", .str f.actorType),
      ("affected_records", affected.sorted),
      ("after_state", after.sorted),
      ("before_state", before.sorted),
      ("chain_id", .str f.chainId),
      ("event_id", .str (idText f.eventId)),
      ("occurred_at", .str (String.ofList (timestampText f.occurredAt.utc))),
      ("prev_hash", match f.prevHash with
        | some h => .str h
        | none => .null),
      ("rationale", .str f.rationale),
      ("seq", .num f.sequenceNo),
      ("v", .num f.serialisationVersion)] := by
  cases hp : f.prevHash <;>
    simp [payload, hp, Json.sorted, sortedMembers, List.insertionSort, List.orderedInsert]

private theorem bytes_inj {a b : List Char}
    (h : (String.ofList a).toUTF8 = (String.ofList b).toUTF8) : a = b :=
  String.ofList_injective (String.toByteArray_inj.mp h)

/-- Entries with the same canonical bytes have the same content. -/
theorem canonicalBytes_inj {f g : AuditEntryFields} {bytes : ByteArray}
    (hf : canonicalBytes f = .ok bytes) (hg : canonicalBytes g = .ok bytes) : SameContent f g := by
  obtain ⟨hfv, hfa, fa, fb, fc, hfaff, hfbef, hfaft, hfb⟩ := canonicalBytes_ok hf
  obtain ⟨hgv, hga, ga, gb, gc, hgaff, hgbef, hgaft, hgb⟩ := canonicalBytes_ok hg
  have hobj := render_injective (bytes_inj (hfb.symm.trans hgb))
  rw [payload_sorted, payload_sorted] at hobj
  simp only [Json.obj.injEq, List.cons.injEq, Prod.mk.injEq, true_and, and_true, Json.str.injEq,
    Json.num.injEq] at hobj
  obtain ⟨haction, hactor, htype, haff, haft, hbef, hchain, hevent, hat, hprev, hwhy, hseq, -⟩ :=
    hobj
  refine ⟨idText_inj hevent, hchain, hseq, ?_, htype, hactor, haction, ?_, ?_, ?_, hwhy, ?_,
    hfv.trans hgv.symm⟩
  · have hutc : f.occurredAt.utc = g.occurredAt.utc :=
      timestampText_inj (String.ofList_injective hat)
    calc f.occurredAt = ⟨f.occurredAt.utc, f.occurredAt.aware⟩ := rfl
      _ = ⟨g.occurredAt.utc, g.occurredAt.aware⟩ := by rw [hutc, hfa, hga]
  · rw [PyValue.json_of_ok hfaff, PyValue.json_of_ok hgaff, haff]
  · rw [PyValue.json_of_ok hfbef, PyValue.json_of_ok hgbef, hbef]
  · rw [PyValue.json_of_ok hfaft, PyValue.json_of_ok hgaft, haft]
  · rcases hp : f.prevHash with _ | a <;> rcases hq : g.prevHash with _ | b <;>
      simp only [hp, hq] at hprev
    · rfl
    · cases hprev
    · cases hprev
    · rw [Json.str.inj hprev]

end Recon
