import ReconEngine.Fx.Marks
import ReconEngine.Fx.Uploads
import ReconEngine.Store.Forward

/-!
# Uploads that run together

Any number of uploads run at the same time, row by row, and any of them may be lost. **What they leave
is what some of them leave, one after another** (`fxRuns_linearise`): each upload that commits does so
at once, although the rows that it found in the table were put there at different moments. So the
laws of uploads and of quotes hold of every run (`fxRuns_keep`, `fxRuns_quote`).

**What it does not establish.** Which of two uploads at one time comes first. The one that waits
finds the row of the other, and counts it as there already.
-/

set_option autoImplicit false

namespace Recon

open Store
open Store.Prog hiding pure bind

/-! ## The protocol -/

/-- What the locks protect: which keys are in use, and the chain. -/
def FxLock.agree : FxLock → FxDb → FxDb → Prop
  | .rate key, d, d' => key ∈ d.rates.map FxRate.rateKey ↔ key ∈ d'.rates.map FxRate.rateKey
  | .chain, d, d' => d.events = d'.events

/-- Every commit is some uploads, one after another, of those that are allowed. -/
def fxUploads (allowed : FxUpload → Prop) : Protocol fxSchema where
  agree := FxLock.agree
  same _ d d' := FxDb.rates d <+: FxDb.rates d'
  inv _ _ := True
  writes _ _ := True
  moves d d' := ∃ us, (∀ u ∈ us, allowed u) ∧ d' = FxDb.uploads d us
  agree_refl l d := by
    cases l with
    | rate key => exact Iff.rfl
    | chain => rfl
  agree_trans l d d' d'' h h' := by
    cases l with
    | rate key => exact Iff.trans h h'
    | chain => exact Eq.trans h h'
  same_refl _ _ := List.prefix_rfl
  same_trans _ _ _ _ h h' := List.IsPrefix.trans h h'
  inv_mono _ _ _ _ h := h

section

variable {allowed : FxUpload → Prop}

theorem fxUploads_forward (hallowed : ∀ u, allowed u → u.Usable) :
    (fxUploads allowed).Forward where
  refl d := ⟨[], fun _ h => absurd h List.not_mem_nil, rfl⟩
  trans d d' d'' h h' := by
    obtain ⟨us, hus, rfl⟩ := h
    obtain ⟨us', hus', rfl⟩ := h'
    refine ⟨us ++ us', ?_, (List.foldl_append ..).symm⟩
    intro u hu
    exact (List.mem_append.mp hu).elim (hus u) (hus' u)
  keeps d d' h _ := by
    obtain ⟨us, hus, rfl⟩ := h
    exact (FxDb.uploads_keep fun u hu => hallowed u (hus u hu)).grows

/-! ## The rows of an upload -/

/-- A transaction that has inserted what had to be inserted of some rows: it has locked the keys of
the rows it inserted and relies on the keys it found. -/
structure Inserting (done new : List FxRate) (k : Local fxSchema) : Prop where
  rows : insertable FxRate.rateKey (FxDb.rates k.db) done = new
  log : k.log = new.map FxWrite.insertRate
  held : ∀ r ∈ new, FxLock.rate r.rateKey ∈ k.held
  kept : done = [] ∨ FxMark.kept ∈ k.marks
  positive : ∀ r ∈ done, 0 < r.rateInr

variable {k : Local fxSchema} {done new : List FxRate} {n : Nat} {d : FxDb}

/-- The same rows have to be inserted later on. -/
theorem Inserting.later (h : Inserting done new k) (hl : (fxUploads allowed).Later k n d) :
    insertable FxRate.rateKey d.rates done = new := by
  rw [← h.rows]
  apply insertable_congr
  intro r hr
  have hmark : FxMark.kept ∈ k.marks :=
    h.kept.resolve_left fun hnil => absurd (hnil ▸ hr) List.not_mem_nil
  constructor
  · intro hmem
    by_contra hfree
    have hoffered := mem_insertable_keys r hr hfree
    rw [h.rows] at hoffered
    obtain ⟨inserted, hinserted, hkey⟩ := List.mem_map.mp hoffered
    have hagree : inserted.rateKey ∈ (FxDb.rates k.db).map FxRate.rateKey ↔
        inserted.rateKey ∈ d.rates.map FxRate.rateKey := hl.agree _ (h.held inserted hinserted)
    rw [hkey] at hagree
    exact hfree (hagree.mpr hmem)
  · intro hmem
    have hgrows : FxDb.rates k.db <+: d.rates := hl.same _ hmark
    exact (List.IsPrefix.map FxRate.rateKey hgrows).subset hmem

/-- What a transaction knows when it looks at the table again. -/
theorem Inserting.through (h : Inserting done new k) (hl : (fxUploads allowed).Later k n d)
    (held : List FxLock) (marks : List FxMark) (m : Nat) (hheld : ∀ l ∈ k.held, l ∈ held)
    (hmarks : ∀ mark ∈ k.marks, mark ∈ marks) :
    Inserting done new ⟨held, marks, k.log, m, d⟩ where
  rows := h.later hl
  log := h.log
  held r hr := hheld _ (h.held r hr)
  kept := h.kept.imp id (hmarks _)
  positive := h.positive

/-- The table with rows that a transaction has inserted. -/
theorem replay_insertRates {rows : List FxRate} {log : List fxSchema.Write}
    (h : log = rows.map FxWrite.insertRate) (d : FxDb) :
    fxSchema.replay log d = { d with rates := d.rates ++ rows } := by
  subst h
  induction rows generalizing d with
  | nil =>
    show d = { d with rates := d.rates ++ [] }
    rw [List.append_nil]
  | cons r rows ih =>
    apply (ih { d with rates := d.rates ++ [r] }).trans
    rw [List.append_assoc]
    rfl

/-- What the transaction sees: the table with what it has inserted. -/
theorem Inserting.mem_view (h : Inserting done new k) {key : FxRateKey} :
    key ∈ (FxDb.rates (fxSchema.replay k.log d)).map FxRate.rateKey ↔
      key ∈ (d.rates ++ new).map FxRate.rateKey :=
  iff_of_eq (congrArg (fun table => key ∈ (FxDb.rates table).map FxRate.rateKey)
    (replay_insertRates h.log d))

/-- A row whose key is there is passed over. -/
theorem Inserting.skip (h : Inserting done new k) {r : FxRate} (hpos : 0 < r.rateInr)
    (hmark : FxMark.kept ∈ k.marks)
    (hthere : r.rateKey ∈ (FxDb.rates k.db ++ new).map FxRate.rateKey) :
    Inserting (done ++ [r]) new k where
  rows := by
    rw [insertable_append, inserted, h.rows, insertable, if_pos hthere]
    exact List.append_nil _
  log := h.log
  held := h.held
  kept := .inr hmark
  positive := List.forall_mem_append.mpr ⟨h.positive, List.forall_mem_singleton.mpr hpos⟩

/-- A row whose key is locked and not there is inserted. -/
theorem Inserting.insert (h : Inserting done new k) {r : FxRate} (hpos : 0 < r.rateInr)
    (hmark : FxMark.kept ∈ k.marks) (hlocked : FxLock.rate r.rateKey ∈ k.held)
    (hfree : r.rateKey ∉ (FxDb.rates k.db ++ new).map FxRate.rateKey) :
    Inserting (done ++ [r]) (new ++ [r]) { k with log := k.log ++ [.insertRate r] } where
  rows := by
    show insertable FxRate.rateKey (FxDb.rates k.db) (done ++ [r]) = new ++ [r]
    rw [insertable_append, inserted, h.rows, insertable, if_neg hfree]
    rfl
  log := by
    rw [List.map_append, h.log]
    rfl
  held := List.forall_mem_append.mpr ⟨h.held, List.forall_mem_singleton.mpr hlocked⟩
  kept := .inr hmark
  positive := List.forall_mem_append.mpr ⟨h.positive, List.forall_mem_singleton.mpr hpos⟩

/-- A rate is inserted under the lock of its key, or passed over. -/
theorem insertRate_follows (r : FxRate) (hk : Inserting done new k) :
    (fxUploads allowed).Follows (insertRate r)
      (fun isNew k' => (∃ new', Inserting (done ++ [r]) new' k') ∧
        k'.log.length = if isNew then k.log.length + 1 else k.log.length) (fun _ _ => True) k := by
  apply Protocol.Follows.bind
  apply Protocol.Follows.require
  · intro hpositive
    have hpos := of_decide_eq_true hpositive
    apply Protocol.Follows.bind (Protocol.Follows.viewing fun n₁ d₁ h₁ => ?_)
    have hfirst := hk.through h₁ k.held (FxMark.kept :: k.marks) n₁
      (fun _ h => h) (fun _ h => List.mem_cons_of_mem _ h)
    split
    · rename_i hthere
      exact ⟨⟨new, hfirst.skip hpos List.mem_cons_self (hk.mem_view.mp hthere)⟩, rfl⟩
    · apply Protocol.Follows.bind (Protocol.Follows.lockRow fun n₂ d₂ h₂ => ?_)
      have hsecond := hfirst.through h₂ (FxLock.rate r.rateKey :: k.held)
        (FxMark.kept :: k.marks) n₂ (fun _ => List.mem_cons_of_mem _)
        (fun _ h => h)
      apply Protocol.Follows.bind (Protocol.Follows.viewing fun n₃ d₃ h₃ => ?_)
      have hthird := hsecond.through h₃ (FxLock.rate r.rateKey :: k.held)
        (FxMark.kept :: FxMark.kept :: k.marks) n₃
        (fun _ h => h) (fun _ h => List.mem_cons_of_mem _ h)
      split
      · rename_i hthere
        exact ⟨⟨new, hthird.skip hpos List.mem_cons_self (hk.mem_view.mp hthere)⟩, rfl⟩
      · rename_i hfree
        constructor
        · exact fun _ _ _ => trivial
        · exact ⟨⟨_, hthird.insert hpos List.mem_cons_self List.mem_cons_self
            (mt hk.mem_view.mpr hfree)⟩, List.length_append⟩
  · intro _
    trivial

/-- The rows one after another, counted. -/
theorem insertRows_follows :
    ∀ (rows done new : List FxRate) (count : Nat) (k : Local fxSchema), Inserting done new k →
      count = k.log.length →
      (fxUploads allowed).Follows
        (rows.foldlM (fun inserted r => do
          let new ← insertRate r
          return if new then inserted + 1 else inserted) count)
        (fun count k' => (∃ new', Inserting (done ++ rows) new' k') ∧ count = k'.log.length)
        (fun _ _ => True) k := by
  intro rows
  induction rows with
  | nil =>
    intro done new count k hk hcount
    rw [List.append_nil]
    exact ⟨⟨new, hk⟩, hcount⟩
  | cons r rows ih =>
    intro done new count k hk hcount
    rw [List.foldlM_cons]
    apply Protocol.Follows.bind
    apply Protocol.Follows.bind
    apply (insertRate_follows r hk).mono _ fun _ _ _ => trivial
    intro isNew k' hnext
    obtain ⟨⟨new', hk'⟩, hlength⟩ := hnext
    have hrest := ih (done ++ [r]) new' (if isNew then count + 1 else count) k' hk'
      (by rw [hlength, hcount])
    rw [List.append_assoc] at hrest
    exact hrest

/-! ## Commits -/

/-- What an upload commits is the upload, at once. -/
theorem Inserting.commits {u : FxUpload} (h : Inserting u.rows new k) {count : Nat}
    (hcount : count = k.log.length) (hl : (fxUploads allowed).Later k n d) :
    fxSchema.replay (k.log ++ [.record (u.event count)]) d = FxDb.upload d u ∧
      ∀ l : FxLock, l ∉ FxLock.chain :: k.held → l.agree d (FxDb.upload d u) := by
  have hrows := h.later hl
  constructor
  · have hlength : count = (insertable FxRate.rateKey d.rates u.rows).length := by
      rw [hrows, hcount]
      exact (congrArg List.length h.log).trans (List.length_map _)
    apply (Schema.replay_append fxSchema k.log _ d).trans
    apply (congrArg (FxWrite.apply (.record (u.event count))) (replay_insertRates h.log d)).trans
    unfold FxDb.upload inserted
    rw [hrows, hlength, hrows]
    rfl
  · intro l hfree
    cases l with
    | chain => exact absurd List.mem_cons_self hfree
    | rate key =>
      show key ∈ d.rates.map FxRate.rateKey ↔
        key ∈ (inserted FxRate.rateKey d.rates u.rows).map FxRate.rateKey
      unfold inserted
      rw [List.map_append, List.mem_append, hrows]
      constructor
      · exact .inl
      · intro hmem
        apply hmem.resolve_right
        intro hinserted
        obtain ⟨r, hr, rfl⟩ := List.mem_map.mp hinserted
        exact hfree (List.mem_cons_of_mem _ (h.held r hr))

/-- An upload follows the protocol, rate by rate. -/
theorem uploadFxRates_follows {lib : FxService} {request : FxUploadRequest} (hlog : k.log = [])
    (hallowed : ∀ result, request.load lib = .ok result → (request.upload result).Usable →
      allowed (request.upload result)) :
    (fxUploads allowed).Follows (uploadFxRates lib request) (fun _ _ => True) (fun _ _ => True)
      k := by
  apply Protocol.Follows.bind
  apply Protocol.Follows.require
  · intro hrole
    apply Protocol.Follows.bind
    cases hload : request.load lib with
    | error e => trivial
    | ok result =>
      apply Protocol.Follows.bind
      have hstart : Inserting [] [] k := by
        constructor
        · rfl
        · exact hlog
        · exact fun r hr => absurd hr List.not_mem_nil
        · exact .inl rfl
        · exact fun r hr => absurd hr List.not_mem_nil
      have hrows := @insertRows_follows allowed (request.upload result).rows [] [] 0 k
        hstart (by rw [hlog]; rfl)
      apply hrows.mono _ fun _ _ _ => trivial
      intro count k' hdone
      obtain ⟨⟨new, hk'⟩, hcount⟩ := hdone
      apply Protocol.Follows.bind (Protocol.Follows.lockRow fun n₁ d₁ h₁ => ?_)
      apply Protocol.Follows.bind
      apply Protocol.Follows.put (fun _ _ _ => trivial)
      intro n d hl
      have hlater : (fxUploads allowed).Later k' n d :=
        h₁.through (fun _ => List.mem_cons_of_mem _) (Nat.le_refl n₁) ⟨hl.supply, hl.inv, hl.agree, hl.same⟩
      obtain ⟨hreplay, hagree⟩ := hk'.commits hcount hlater
      dsimp only
      rw [hreplay]
      refine ⟨hagree, trivial, ⟨[request.upload result], ?_, rfl⟩, trivial⟩
      intro u hu
      rw [List.mem_singleton.mp hu]
      exact hallowed result hload (FxUploadRequest.upload_usable hload hrole hk'.positive)
  · intro _
    trivial

end

/-! ## Runs -/

/-- Uploads that have not started yet. -/
def fxSystem (lib : FxService) (requests : List FxUploadRequest) (d : FxDb) (n : Nat) :
    System fxSchema where
  db := d
  supply := n
  clients := requests.map fun request =>
    { prog := (uploadFxRates lib request).bind fun _ => .pure () }

/-- The upload was asked for, and its rates are those of the file that can be stored. -/
def Asked (lib : FxService) (requests : List FxUploadRequest) (u : FxUpload) : Prop :=
  u.Usable ∧ ∃ request ∈ requests, ∃ result, request.load lib = .ok result ∧
    u = request.upload result

section

variable {lib : FxService} {requests : List FxUploadRequest} {d : FxDb} {n : Nat}

/-- **Uploads that run together are uploads one after another.** -/
theorem fxRuns_linearise {es : List Event} {t : System fxSchema}
    (hrun : (fxSystem lib requests d n).run es = some t) :
    (fxUploads (Asked lib requests)).Ready t ∧
      ∃ us, (∀ u ∈ us, Asked lib requests u) ∧ t.db = FxDb.uploads d us := by
  have hready : (fxUploads (Asked lib requests)).Ready (fxSystem lib requests d n) := by
    apply Protocol.Ready.unstarted trivial
    intro request hrequest k hlog
    apply Protocol.Follows.bind
    apply (uploadFxRates_follows hlog _).mono (fun _ _ _ => trivial) fun _ _ h => h
    exact fun result hload husable => ⟨husable, request, hrequest, result, hload, rfl⟩
  exact hready.run_forward (fxUploads_forward fun u hu => hu.1) es hrun

/-- **First come.** At every moment of every run, the table and the chain are what some of the uploads
leave, one after another: no rate has changed, the rate of a key is the one that was there or the
first that was offered, every rate can be converted, and the entries account for the rates. -/
theorem fxRuns_keep {es : List Event} {t : System fxSchema} (hd : d.Sound)
    (hrun : (fxSystem lib requests d n).run es = some t) :
    FxDb.Sound t.db ∧
      ∃ us, (∀ u ∈ us, Asked lib requests u) ∧ t.db = FxDb.uploads d us ∧ d.Kept us := by
  obtain ⟨-, us, hus, hdb⟩ := fxRuns_linearise hrun
  have hkept := FxDb.uploads_keep (d := d) fun u hu => (hus u hu).1
  rw [hdb]
  exact ⟨hkept.sound hd, us, hus, rfl, hkept⟩

/-- **Quotes only get better.** Between any two moments of a run, a quote stays as it is or becomes
that of a rate that was uploaded in between and comes before the old one, and the clean reference rate
of a day stays its quote. -/
theorem fxRuns_quote {es es' : List Event} {t t' : System fxSchema} (hd : d.Sound)
    (hrun : (fxSystem lib requests d n).run es = some t) (hrun' : t.run es' = some t')
    {currency : String} {day : Date} {q : FxQuote}
    (h : quoteOf (FxDb.rates t.db) currency day = some q) :
    ∃ q', quoteOf (FxDb.rates t'.db) currency day = some q' ∧
      (q' = q ∨ ∃ old ∈ FxDb.rates t.db, ∃ new ∈ FxDb.rates t'.db, new ∉ FxDb.rates t.db ∧
        q = old.quoteOn day ∧ q' = new.quoteOn day ∧ new.key day < old.key day) ∧
      (q.suspect = false → q.rateDate = day → q.source = FxSource.rbi.text → q' = q) := by
  obtain ⟨hready, us, hus, hdb⟩ := fxRuns_linearise hrun
  obtain ⟨-, us', hus', hdb'⟩ :=
    hready.run_forward (fxUploads_forward fun u hu => hu.1) es' hrun'
  have hbefore := FxDb.uploads_keep (d := d) fun u hu => (hus u hu).1
  have hafter := FxDb.uploads_keep (d := t.db) fun u hu => (hus' u hu).1
  have hsound : FxDb.Sound t.db := by
    rw [hdb]
    exact hbefore.sound hd
  apply quote_later _ _ h
  · rw [hdb']
    exact hafter.grows
  · rw [hdb']
    exact (hafter.sound hsound).keys

end

/-! Two analysts upload a rate of one day at the same time, where there is a rate of a lesser source:
the second waits for the first and is passed over. -/

/-- The library as far as these files need it: their bytes are ASCII. -/
def fxServing : FxService :=
  { fxReading with decode := fun bytes => .ok (String.ofList (bytes.map fun b => Char.ofNat b.toNat)) }

def uploadOf (name text : String) : FxUploadRequest where
  principal := ⟨name, .analyst⟩
  file := text.toList.map fun c => c.toNat.toUInt8
  now := 10

def rivalUploads : List FxUploadRequest :=
  [uploadOf "asha" "date,currency,rate\n2026-03-13,USD,83.10\n",
    uploadOf "ravi" "date,currency,rate\n2026-03-13,USD,83.20\n"]

def fbilTable : FxDb where
  rates := [⟨"USD", 739688, 833 / 10, .fbil, false⟩]

theorem fbilTable_sound : fbilTable.Sound where
  keys := List.nodup_singleton _
  storable r hr := by
    rw [List.mem_singleton.mp hr]
    exact ⟨8330000000, by decide, by decide, by norm_num⟩

/-- Both have looked for the rate and not found it. -/
def rivalsLook : List Event := [.run 0, .run 1]

/-- The first commits, and the second goes on. -/
def rivalsGoOn : List Event := List.replicate 6 (.run 0) ++ List.replicate 5 (.run 1)

theorem rivals_look :
    ((fxSystem fxServing rivalUploads fbilTable 2).run rivalsLook).isSome = true := by
  decide +kernel

theorem rivals_goOn :
    ((((fxSystem fxServing rivalUploads fbilTable 2).run rivalsLook).get rivals_look).run
      rivalsGoOn).isSome = true := by
  decide +kernel

theorem rivals_run : ((fxSystem fxServing rivalUploads fbilTable 2).run
    (rivalsLook ++ rivalsGoOn)).isSome = true := by
  decide +kernel

theorem fxRuns_keep_rivals :
    let t := ((fxSystem fxServing rivalUploads fbilTable 2).run
      (rivalsLook ++ rivalsGoOn)).get rivals_run
    FxDb.Sound t.db ∧ (FxDb.rates t.db).length = 2 ∧ (FxDb.events t.db).length = 2 ∧
      ∃ us, t.db = FxDb.uploads fbilTable us ∧ us.length = 2 := by
  intro t
  have hevents : (FxDb.events t.db).length = 2 := by decide +kernel
  obtain ⟨hsound, us, -, hdb, hkept⟩ := fxRuns_keep fbilTable_sound
    (Option.some_get rivals_run).symm
  obtain ⟨counts, hlength, hentries, -⟩ := hkept.counted
  refine ⟨hsound, by decide +kernel, hevents, us, hdb, ?_⟩
  rw [hdb, hentries] at hevents
  simpa [fbilTable, hlength] using hevents

theorem fxRuns_quote_rivals :
    let t := ((fxSystem fxServing rivalUploads fbilTable 2).run rivalsLook).get rivals_look
    let t' := (t.run rivalsGoOn).get rivals_goOn
    ∃ q', quoteOf (FxDb.rates t'.db) "USD" 739688 = some q' ∧ q'.source = "RBI" ∧
      ∃ new ∈ FxDb.rates t'.db, new ∉ FxDb.rates t.db ∧ q' = new.quoteOn 739688 := by
  intro t t'
  have hquote : quoteOf (FxDb.rates t.db) "USD" 739688 =
      some ⟨"USD", 833 / 10, "FBIL", 739688, 0, false⟩ := by
    decide +kernel
  obtain ⟨q', hq', hwhich, -⟩ := fxRuns_quote fbilTable_sound
    (Option.some_get rivals_look).symm (Option.some_get rivals_goOn).symm hquote
  have hreference : (quoteOf (FxDb.rates t'.db) "USD" 739688).map (·.source) = some "RBI" := by
    decide +kernel
  have hsource : q'.source = "RBI" := by
    have hmap := congrArg (Option.map (·.source)) hq'
    exact Option.some.inj (hmap.symm.trans hreference)
  refine ⟨q', hq', hsource, ?_⟩
  rcases hwhich with hsame | hbetter
  · rw [hsame] at hsource
    exact absurd hsource (by decide)
  · obtain ⟨old, -, new, hnew, hadded, -, hnewquote, -⟩ := hbetter
    exact ⟨new, hnew, hadded, hnewquote⟩

end Recon
