import ReconEngine.Api.Access
import ReconEngine.Fx.Loader
import ReconEngine.Matching.FxChoice
import ReconEngine.Matching.FxConversion
import ReconEngine.Store.Inserts

/-!
# Uploads of exchange rates

An upload loads a file, inserts the rates of which there is none yet for their day, currency and
source, and leaves an entry in the audit trail that says how many there were. A rate that is there
is never replaced: one that was used in a match must not change underneath it.

**The law of uploads** (`FxDb.uploads_keep`): after any uploads the table holds, for every day,
currency and source, the rate that was offered first, as the conversion to paise can use it, and the
entries account for every row. **The law of quotes** (`quote_later`): a quote changes only to one of
a rate that was uploaded since and that is better, so that the clean reference rate of a day is its
quote for good.

**What they do not establish.** That a rate can be corrected: there is no operation that replaces
one, and a wrong rate of the best source stays its quote.
-/

set_option autoImplicit false

namespace Recon

open Store
open Store.Prog hiding pure bind

/-! ## The table -/

/-- The columns of the unique index. -/
structure FxRateKey where
  rateDate : Date
  currency : String
  source : FxSource
deriving DecidableEq, Repr

def FxRate.rateKey (r : FxRate) : FxRateKey := ⟨r.rateDate, r.currency, r.source⟩

/-- A value in a `NUMERIC(18, 8)` column; what lies in the middle is rounded up. -/
def storedRate (rateInr : Rat) : Rat := ⌊rateInr * 10 ^ 8 + 1 / 2⌋ / 10 ^ 8

/-- The row of a rate. -/
def ParsedFxRate.stored (r : ParsedFxRate) : FxRate where
  currency := r.currency
  rateDate := r.rateDate
  rateInr := storedRate r.rateInr
  source := r.source
  suspect := r.suspect

/-- The table of rates, with the events of the chain of ingestion in the order in which they were
appended. -/
structure FxDb where
  rates : List FxRate := []
  events : List AuditEvent := []

inductive FxWrite where
  | insertRate (r : FxRate)
  | record (event : AuditEvent)

def FxWrite.apply (w : FxWrite) (d : FxDb) : FxDb :=
  match w with
  | .insertRate r => { d with rates := d.rates ++ [r] }
  | .record event => { d with events := d.events ++ [event] }

inductive FxLock where
  | rate (key : FxRateKey)
  | chain
deriving DecidableEq, Repr

/-- The one mark: that no rate goes away. -/
inductive FxMark where
  | kept
deriving DecidableEq, Repr

def fxSchema : Schema where
  Db := FxDb
  Lock := FxLock
  Mark := FxMark
  Write := FxWrite
  Err := HttpError
  apply := FxWrite.apply
  transient _ := false

instance : DecidableEq fxSchema.Lock := inferInstanceAs (DecidableEq FxLock)

abbrev FxProg := Store.Prog fxSchema

/-! ## The upload -/

def maxFxBytes : Nat := 5 * 1024 * 1024

def fxErrorSample : Nat := 20

/-- An upload by someone with a role, of some bytes. -/
structure FxUploadRequest where
  principal : Principal
  file : List UInt8
  now : Instant

/-- What an upload amounts to once its file is read. -/
structure FxUpload where
  principal : Principal
  rows : List FxRate
  rejected : Nat
  suspect : Nat
  now : Instant

/-- The samples name the first rows that were not read, and the first suspect rates. -/
structure FxUploadOut where
  inserted : Nat
  skippedExisting : Nat
  rejectedCount : Nat
  rejectedSample : List String
  suspectCount : Nat
  suspectSample : List ParsedFxRate
deriving DecidableEq, Repr

/-- The entry of an upload that inserted so many rates. -/
def FxUpload.event (u : FxUpload) (inserted : Nat) : AuditEvent where
  chainId := "ingestion"
  actorType := "USER"
  actorId := apiActor u.principal
  actionType := "INGEST"
  affectedRecords := .dict [(.str "kind", .str "fx_rates")]
  rationale := "exchange-rate file loaded"
  occurredAt := { utc := u.now }
  afterState := .dict
    [(.str "inserted", .int inserted), (.str "skipped_existing", .int (u.rows.length - inserted)),
      (.str "rejected", .int u.rejected), (.str "suspect", .int u.suspect)]

/-- The logger takes every such event. -/
theorem FxUpload.event_accepted (u : FxUpload) (inserted : Nat) : (u.event inserted).Accepted where
  actor := .inr rfl
  aware := rfl
  affected := PyValue.accepted_dict (by simp)
  before := PyValue.accepted_none
  after := PyValue.accepted_dict (by simp)

/-- The library of the loader, and what turns bytes into a text. -/
structure FxService extends FxLibrary where
  decode : List UInt8 → Except String String

namespace FxUploadRequest

variable (lib : FxService)

/-- The file, read with the default percentage, or the response that refuses it. -/
def load (request : FxUploadRequest) : Except HttpError FxLoadResult :=
  if maxFxBytes < request.file.length then .error ⟨413, "fx file is too large"⟩
  else match lib.decode request.file with
    | .error detail => .error ⟨422, "fx file could not be read: " ++ detail⟩
    | .ok text =>
      match parseFxCsv lib.toFxLibrary defaultOutlierPercent text with
      | .error (.valueError detail) => .error ⟨422, "fx file could not be read: " ++ detail⟩
      | .error (.csvError _) => .error internalServerError
      | .ok result =>
        if result.rates = [] then .error ⟨422, "fx file contains no usable rates"⟩ else .ok result

/-- The upload of what was read. -/
def upload (request : FxUploadRequest) (result : FxLoadResult) : FxUpload where
  principal := request.principal
  rows := result.rates.map ParsedFxRate.stored
  rejected := result.errors.length
  suspect := result.suspects.length
  now := request.now

end FxUploadRequest

/-- One row of `INSERT ... ON CONFLICT DO NOTHING`, and whether it was inserted: the constraint is
checked first, and another transaction that inserts the same key is waited for. -/
def insertRate (r : FxRate) : FxProg Bool := do
  require (decide (0 < r.rateInr)) internalServerError
  let d ← viewing fun _ => [FxMark.kept]
  if r.rateKey ∈ d.rates.map FxRate.rateKey then return false
  else
    lockRow (FxLock.rate r.rateKey)
    let d ← viewing fun _ => [FxMark.kept]
    if r.rateKey ∈ d.rates.map FxRate.rateKey then return false
    else
      put (FxWrite.insertRate r)
      return true

/-- `insert_many`: the rows one after another, and how many were inserted. -/
def insertMany (rows : List FxRate) : FxProg Nat :=
  rows.foldlM (fun inserted r => do
    let new ← insertRate r
    return if new then inserted + 1 else inserted) 0

/-- `upload_fx_rates`. -/
def uploadFxRates (lib : FxService) (request : FxUploadRequest) : FxProg FxUploadOut := do
  require (request.principal.role.atLeast .analyst)
    ⟨403, "role " ++ Role.analyst.text ++ " or higher is required"⟩
  let result ← ofExcept (request.load lib)
  let u := request.upload result
  let inserted ← insertMany u.rows
  lockRow FxLock.chain
  put (FxWrite.record (u.event inserted))
  commitNow
  return {
    inserted
    skippedExisting := u.rows.length - inserted
    rejectedCount := result.errors.length
    rejectedSample := (result.errors.take fxErrorSample).map fun e =>
      "line " ++ toString e.lineNo ++ ": " ++ e.detail
    suspectCount := result.suspects.length
    suspectSample := result.suspects.take fxErrorSample
  }

/-! ## Uploads one after another -/

namespace FxDb

/-- An upload, at once. -/
def upload (d : FxDb) (u : FxUpload) : FxDb where
  rates := inserted FxRate.rateKey d.rates u.rows
  events := d.events ++ [u.event (insertable FxRate.rateKey d.rates u.rows).length]

/-- The uploads in their order. -/
def uploads (d : FxDb) (us : List FxUpload) : FxDb := us.foldl upload d

/-- One rate for a day, a currency and a source, each as the conversion to paise can use it. -/
structure Sound (d : FxDb) : Prop where
  keys : (d.rates.map FxRate.rateKey).Nodup
  storable : ∀ r ∈ d.rates, StorableRate r.rateInr

end FxDb

/-- An upload by an analyst, or by someone with a higher role, of rates that the table takes. -/
structure FxUpload.Usable (u : FxUpload) : Prop where
  role : u.principal.role.atLeast .analyst = true
  storable : ∀ r ∈ u.rows, StorableRate r.rateInr

section

variable {lib : FxService} {request : FxUploadRequest} {result : FxLoadResult}

/-- A rate that was read and is not too small for the column. -/
theorem storable_stored {r : ParsedFxRate} (haccepted : r.Accepted lib.toFxLibrary)
    (hpos : 0 < r.stored.rateInr) : StorableRate r.stored.rateInr := by
  refine ⟨⌊r.rateInr * 10 ^ 8 + 1 / 2⌋, ?_, ?_, rfl⟩
  · have hunits := (div_pos_iff_of_pos_right (by norm_num)).mp hpos
    exact_mod_cast hunits
  · have hmax := haccepted.atMost
    unfold maxFxRate at hmax
    apply Int.floor_lt.mpr
    push_cast
    linarith

/-- The rates of a file that is loaded. -/
theorem FxUploadRequest.load_accepted (h : request.load lib = .ok result) :
    result.rates ≠ [] ∧ ∀ r ∈ result.rates, r.Accepted lib.toFxLibrary := by
  unfold FxUploadRequest.load at h
  split at h
  · cases h
  · split at h
    · cases h
    · split at h
      · cases h
      · cases h
      · rename_i hparse
        split at h
        · cases h
        · rename_i hsome
          cases h
          obtain ⟨-, -, -, -, haccepted⟩ := parseFxCsv_lines hparse
          exact ⟨hsome, haccepted⟩

theorem FxUploadRequest.upload_usable (h : request.load lib = .ok result)
    (hrole : request.principal.role.atLeast .analyst = true)
    (hpos : ∀ r ∈ (request.upload result).rows, 0 < r.rateInr) :
    (request.upload result).Usable where
  role := hrole
  storable r hr := by
    obtain ⟨parsed, hparsed, rfl⟩ := List.mem_map.mp hr
    exact storable_stored ((FxUploadRequest.load_accepted h).2 parsed hparsed) (hpos _ hr)

end

section

variable {d : FxDb} {u : FxUpload} {us : List FxUpload}

/-- What uploads leave, of the table and of the chain. -/
structure FxDb.Kept (d : FxDb) (us : List FxUpload) : Prop where
  /-- No rate changes or goes away. -/
  grows : d.rates <+: (d.uploads us).rates
  sound : d.Sound → (d.uploads us).Sound
  /-- The rate of a key is the one that was there, or the first that was offered. -/
  first : ∀ key, (d.uploads us).rates.find? (·.rateKey = key) =
    (d.rates ++ us.flatMap (·.rows)).find? (·.rateKey = key)
  /-- Every upload has its entry, and the entries count the rates of the table. -/
  counted : ∃ counts : List Nat, counts.length = us.length ∧
    (d.uploads us).events = d.events ++ List.zipWith FxUpload.event us counts ∧
    d.rates.length + counts.sum = (d.uploads us).rates.length

/-- **The law of uploads.** -/
theorem FxDb.uploads_keep (hus : ∀ u ∈ us, u.Usable) : d.Kept us := by
  induction us generalizing d with
  | nil =>
    exact ⟨List.prefix_rfl, id, fun key => by simp [uploads], [], rfl, by simp [uploads],
      by simp [uploads]⟩
  | cons u us ih =>
    have hlater : (d.upload u).Kept us := ih fun other h => hus other (List.mem_cons_of_mem u h)
    have hfold : d.uploads (u :: us) = (d.upload u).uploads us := rfl
    refine ⟨?_, ?_, ?_, ?_⟩
    · rw [hfold]
      exact (List.prefix_append d.rates _).trans hlater.grows
    · intro hd
      rw [hfold]
      apply hlater.sound
      constructor
      · exact nodup_inserted hd.keys
      · intro r hr
        rcases List.mem_append.mp hr with hold | hnew
        · exact hd.storable r hold
        · exact (hus u List.mem_cons_self).storable r (insertable_sublist.subset hnew)
    · intro key
      rw [hfold, hlater.first]
      show (inserted FxRate.rateKey d.rates u.rows ++ _).find? _ = _
      rw [List.find?_append, find?_inserted, ← List.find?_append, List.append_assoc,
        List.flatMap_cons]
    · obtain ⟨counts, hlength, hevents, hsum⟩ := hlater.counted
      refine ⟨(insertable FxRate.rateKey d.rates u.rows).length :: counts, ?_, ?_, ?_⟩
      · rw [List.length_cons, List.length_cons, hlength]
      · rw [hfold, hevents, List.zipWith_cons_cons]
        show d.events ++ [_] ++ _ = _
        rw [List.append_assoc]
        rfl
      · rw [hfold, ← hsum, List.sum_cons]
        show _ = (d.rates ++ insertable FxRate.rateKey d.rates u.rows).length + _
        rw [List.length_append]
        omega

end

/-! ## Quotes -/

/-- The quote that a run gets from these rates. -/
def quoteOf (rates : List FxRate) (currency : String) (day : Date) : Option FxQuote :=
  Db.quote { rates := rates } currency day

/-- No two rates of the table share their day, currency and source. -/
theorem rate_eq_of_key {rates : List FxRate} (hkeys : (rates.map FxRate.rateKey).Nodup)
    {a b : FxRate} (ha : a ∈ rates) (hb : b ∈ rates) {day : Date}
    (hcurrency : a.currency = b.currency) (h : a.key day = b.key day) : a = b := by
  obtain ⟨hdate, hsource⟩ := FxRate.same_of_key_eq h
  apply List.inj_on_of_nodup_map hkeys ha hb
  unfold FxRate.rateKey
  rw [hdate, hcurrency, hsource]

theorem FxSource.text_injective : Function.Injective FxSource.text := by
  intro a b h
  cases a <;> cases b <;> first | rfl | exact absurd h (by decide)

/-- No rate comes before a clean reference rate of the day itself. -/
theorem not_before_reference {day : Date} {a b : FxRate} (hsuspect : a.suspect = false)
    (hdate : a.rateDate = day) (hsource : a.source = .rbi) (hb : b.rateDate ≤ day) :
    ¬ b.key day < a.key day := by
  intro h
  have hle : a.key day ≤ b.key day := by
    apply FxRate.key_le_of_cleanKey_le hsuspect
    unfold FxRate.cleanKey
    rw [Prod.Lex.toLex_le_toLex, hdate, hsource]
    rcases hb.lt_or_eq with hlt | heq
    · exact .inl (by simpa using hlt)
    · exact .inr ⟨by rw [heq], Nat.zero_le _⟩
  exact absurd h (not_lt.mpr hle)

/-- **The law of quotes.** When rates are added, a quote stays as it is or becomes that of a rate that
was added and comes before the old one; and the clean reference rate of the day stays its quote. -/
theorem quote_later {rates rates' : List FxRate} (hgrows : rates <+: rates')
    (hkeys : (rates'.map FxRate.rateKey).Nodup) {currency : String} {day : Date} {q : FxQuote}
    (h : quoteOf rates currency day = some q) :
    ∃ q', quoteOf rates' currency day = some q' ∧
      (q' = q ∨ ∃ old ∈ rates, ∃ new ∈ rates', new ∉ rates ∧ q = old.quoteOn day ∧
        q' = new.quoteOn day ∧ new.key day < old.key day) ∧
      (q.suspect = false → q.rateDate = day → q.source = FxSource.rbi.text → q' = q) := by
  unfold quoteOf Db.quote at h ⊢
  by_cases hinr : currency = "INR"
  · rw [if_pos hinr] at h ⊢
    exact ⟨_, rfl, .inl (Option.some.inj h), fun _ _ _ => Option.some.inj h⟩
  · rw [if_neg hinr] at h ⊢
    dsimp only at h ⊢
    obtain ⟨old, hold, holdin, rfl, holdleast⟩ := pickQuote_least h
    obtain ⟨holdmem, holdcur⟩ := List.mem_filter.mp hold
    have hstill : old ∈ rates'.filter (·.currency = currency) :=
      List.mem_filter.mpr ⟨hgrows.subset holdmem, holdcur⟩
    cases hq : pickQuote (rates'.filter (·.currency = currency)) day defaultMaxStaleDays with
    | none => exact absurd holdin (pickQuote_eq_none.mp hq old hstill)
    | some q' =>
      obtain ⟨new, hnew, hnewin, rfl, hleast⟩ := pickQuote_least hq
      obtain ⟨hnewmem, hnewcur⟩ := List.mem_filter.mp hnew
      refine ⟨_, rfl, ?_⟩
      rcases (hleast old hstill holdin).lt_or_eq with hlt | heq
      · have hadded : new ∉ rates := by
          intro hmem
          have hle := holdleast new (List.mem_filter.mpr ⟨hmem, hnewcur⟩) hnewin
          exact absurd hlt (not_lt.mpr hle)
        constructor
        · exact .inr ⟨old, holdmem, new, hnewmem, hadded, rfl, rfl, hlt⟩
        · intro hsuspect hdate hsource
          have hreference := not_before_reference (b := new) hsuspect hdate
            (FxSource.text_injective hsource) (sub_nonneg.mp hnewin.1)
          exact absurd hlt hreference
      · have hcurrency : new.currency = old.currency :=
          (of_decide_eq_true hnewcur).trans (of_decide_eq_true holdcur).symm
        obtain rfl : new = old :=
          rate_eq_of_key hkeys hnewmem (hgrows.subset holdmem) hcurrency heq
        exact ⟨.inl rfl, fun _ _ _ => rfl⟩

end Recon
