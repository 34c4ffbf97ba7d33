import ReconEngine.Anomaly.Scan

/-!
# No observation is lost

Any number of scans run over one store, statement by statement. The stored statistics are `Exact`
when those of each key are the statistics of the scanned transactions with that key. A scan keeps
them exact as long as nobody commits a change to statistics it has read: it holds the row of its
file, so no transaction is counted twice, but it does not hold the rows of statistics, and a second
scan of the same counterparty can then overwrite the observations of the first.

**The law** (`no_lost_observation`): over every number of scans and every order of their statements,
the statistics are exact as long as no scan commits a change to a key that another one has read and
not yet written back.

**What it does not establish.** That the condition is met: nothing in the code sees to it, and in
`observation_lost` two scans of one counterparty lose an observation. The mean is exact here; the
decimal context rounds it (`Anomaly.Stats`).
-/

set_option autoImplicit false

namespace Recon

open Store
open Store.Prog hiding pure bind

/-! ## Exact statistics -/

/-- The scan of the file has been committed. -/
def Db.isScanned (d : Db) (fileId : Id) : Bool :=
  (d.files.find? (·.id = fileId)).any (·.anomalyScannedAt.isSome)

/-- The transaction is counted under the key. -/
def NormalisedTransaction.isUnder (t : NormalisedTransaction) (key : StatKey) : Bool :=
  t.hasCounterparty = true ∧ t.statKey = key

/-- The amounts of the scanned transactions with a key. -/
def Db.scannedAmounts (d : Db) (key : StatKey) : List Int :=
  (d.transactions.filter fun t => t.isUnder key && d.isScanned t.ingestionFileId).map (·.amountMinor)

/-- The statistics of every key are those of its scanned transactions. -/
def Db.Exact (d : Db) : Prop := ∀ key, Summarises (d.statOf key) (d.scannedAmounts key)

/-! ## The protocol -/

variable (rows : List NormalisedTransaction)

/-- Scans change no transaction; the row of a file and the key of a statistics row protect what they
name, and a scan that has read statistics relies on them. -/
def scans : Protocol schema where
  agree l d d' := match l with
    | .file id => d.files.find? (·.id = id) = d'.files.find? (·.id = id)
    | .statKey key => d.statOf key = d'.statOf key
    | _ => True
  same m d d' := match m with
    | .stats keys => ∀ key ∈ keys, d.statOf key = d'.statOf key
    | _ => True
  inv _ d := d.transactions = rows ∧ d.Exact
  writes _ _ := True
  moves _ _ := True
  agree_refl l d := by cases l <;> trivial
  agree_trans l d d' d'' h h' := by
    cases l with
    | file id => exact Eq.trans h h'
    | statKey key => exact Eq.trans h h'
    | _ => trivial
  same_refl m d := by
    cases m with
    | stats keys => exact fun _ _ => rfl
    | _ => trivial
  same_trans m d d' d'' h h' := by
    cases m with
    | stats keys => exact fun key hkey => (h key hkey).trans (h' key hkey)
    | _ => trivial
  inv_mono _ _ _ _ h := h

variable {rows}

/-- What a scan knows once it has read the statistics of `keys`. -/
structure Scanning (rows : List NormalisedTransaction) (file : IngestionFile)
    (baseline : StatKey → Option RollingStats) (keys : List StatKey) (k : Local schema) : Prop where
  lock : RowLock.file file.id ∈ k.held
  file : k.db.files.find? (·.id = file.id) = some file
  rows : k.db.transactions = rows
  marked : ∀ key ∈ keys, ∃ chunk, Mark.stats chunk ∈ k.marks ∧ key ∈ chunk
  known : ∀ key ∈ keys, k.db.statOf key = baseline key

namespace Scanning

variable {file : IngestionFile} {baseline : StatKey → Option RollingStats} {keys : List StatKey}
  {k : Local schema}

/-- What others commit does not touch what the scan knows. -/
theorem later {n m : Nat} {d : Db} (h : Scanning rows file baseline keys k)
    (log : List RowWrite) (hl : (scans rows).Later k n d) {held : List RowLock} {marks : List Mark}
    (hheld : ∀ l ∈ k.held, l ∈ held) (hmarks : ∀ m ∈ k.marks, m ∈ marks) :
    Scanning rows file baseline keys ⟨held, marks, log, m, d⟩ where
  lock := hheld _ h.lock
  file := (hl.agree _ h.lock).symm.trans h.file
  rows := hl.inv.1
  marked := by
    intro key hkey
    obtain ⟨chunk, hchunk, hmem⟩ := h.marked key hkey
    exact ⟨chunk, hmarks _ hchunk, hmem⟩
  known := by
    intro key hkey
    obtain ⟨chunk, hchunk, hmem⟩ := h.marked key hkey
    exact (hl.same _ hchunk key hmem).symm.trans (h.known key hkey)

/-- A step that neither reads nor locks. -/
theorem logged (h : Scanning rows file baseline keys k) (log : List RowWrite) :
    Scanning rows file baseline keys { k with log := log } :=
  ⟨h.lock, h.file, h.rows, h.marked, h.known⟩

end Scanning

/-! ## Reading the statistics -/

theorem statOf_append (rows rows' : List CounterpartyStat) (key : StatKey) :
    statOf (rows ++ rows') key = (statOf rows key).or (statOf rows' key) := by
  unfold statOf
  rw [List.find?_append]
  cases rows.find? (·.key = key) <;> rfl

/-- Rows with other keys do not matter. -/
theorem statOf_filter {p : CounterpartyStat → Bool} {key : StatKey} :
    ∀ {rows : List CounterpartyStat}, (∀ row ∈ rows, row.key = key → p row = true) →
      statOf (rows.filter p) key = statOf rows key
  | [], _ => rfl
  | row :: rows, h => by
    have ih := statOf_filter fun row' hrow' => h row' (List.mem_cons_of_mem row hrow')
    have hsplit : ∀ rest, statOf (row :: rest) key =
        if row.key = key then some row.stats else statOf rest key := by
      intro rest
      by_cases hkey : row.key = key <;> simp [statOf, hkey]
    rw [hsplit]
    by_cases hrow : p row = true
    · rw [List.filter_cons_of_pos hrow, hsplit, ih]
    · rw [List.filter_cons_of_neg hrow, ih, if_neg fun hkey => hrow (h row List.mem_cons_self hkey)]

theorem statOf_eq_none_iff {rows : List CounterpartyStat} {key : StatKey} :
    statOf rows key = none ↔ ∀ row ∈ rows, row.key ≠ key := by
  unfold statOf
  rw [Option.map_eq_none_iff, List.find?_eq_none]
  simp

/-- One chunk read, and then the others. -/
theorem loadChunks_follows {file : IngestionFile} {E : ReconError → Local schema → Prop} :
    ∀ (chunks : List (List StatKey)) {keys : List StatKey} {found : List CounterpartyStat}
      {k : Local schema}, Scanning rows file (statOf found) keys k → k.log = [] →
      (∀ row ∈ found, row.key ∈ keys) →
      (scans rows).Follows (chunks.foldlM (fun found chunk => do
          let d ← tablesMarking fun _ => [.stats chunk]
          return found ++ d.stats.filter (·.key ∈ chunk)) found : Prog (List CounterpartyStat))
        (fun found' k' => Scanning rows file (statOf found') (keys ++ chunks.flatten) k' ∧
          k'.log = []) E k
  | [], keys, found, k, hk, hlog, _ => ⟨by rwa [List.flatten_nil, List.append_nil], hlog⟩
  | chunk :: chunks, keys, found, k, hk, hlog, hfound => by
    rw [List.foldlM_cons, List.flatten_cons, ← List.append_assoc]
    intro n d hl
    have hview : schema.replay k.log d = d := by rw [hlog]; rfl
    rw [hview]
    have hnext : Scanning rows file (statOf found) keys
        ⟨k.held, [.stats chunk] ++ k.marks, k.log, n, d⟩ :=
      hk.later k.log hl (fun _ h => h) fun _ h => List.mem_append_right _ h
    have hread : ∀ key ∈ chunk, statOf (d.stats.filter (·.key ∈ chunk)) key = d.statOf key :=
      fun key hkey => statOf_filter fun row _ hrow => decide_eq_true (hrow ▸ hkey)
    refine loadChunks_follows chunks ⟨hnext.lock, hnext.file, hnext.rows, ?_, ?_⟩ hlog ?_
    · intro key hkey
      rcases List.mem_append.mp hkey with hkey | hkey
      · exact hnext.marked key hkey
      · exact ⟨chunk, List.mem_append_left _ (List.mem_singleton_self _), hkey⟩
    · intro key hkey
      rw [statOf_append]
      show d.statOf key = _
      by_cases hold : key ∈ keys
      · have hknown : d.statOf key = statOf found key := hnext.known key hold
        cases hstat : statOf found key with
        | some stats => exact hknown.trans hstat
        | none =>
          rw [hstat] at hknown
          rw [hknown, Option.none_or]
          refine (statOf_eq_none_iff.mpr fun row hrow => ?_).symm
          exact statOf_eq_none_iff.mp hknown row (List.mem_filter.mp hrow).1
      · have hnone : statOf found key = none :=
          statOf_eq_none_iff.mpr fun row hrow heq => hold (heq ▸ hfound row hrow)
        rw [hnone, Option.none_or, hread key ((List.mem_append.mp hkey).resolve_left hold)]
    · intro row hrow
      rcases List.mem_append.mp hrow with hrow | hrow
      · exact List.mem_append_left _ (hfound row hrow)
      · exact List.mem_append_right _ (of_decide_eq_true (List.mem_filter.mp hrow).2)

/-! ## Writing them back -/

/-- What a statement of `_update_stats` does to the log, and what it locks. -/
theorem eachStat_follows {file : IngestionFile} {baseline : StatKey → Option RollingStats}
    {keys : List StatKey} {one : CounterpartyStat → Prog Unit} {w : CounterpartyStat → RowWrite}
    (hone : ∀ stat k, Scanning rows file baseline keys k →
      (scans rows).Follows (one stat) (fun _ k' => Scanning rows file baseline keys k' ∧
        k'.log = k.log ++ [w stat] ∧ k'.held = .statKey stat.key :: k.held) (fun _ _ => True) k) :
    ∀ (stats : List CounterpartyStat) {k : Local schema}, Scanning rows file baseline keys k →
      (scans rows).Follows (eachStat one stats)
        (fun _ k' => Scanning rows file baseline keys k' ∧ k'.log = k.log ++ stats.map w ∧
          (∀ stat ∈ stats, .statKey stat.key ∈ k'.held) ∧ ∀ l ∈ k.held, l ∈ k'.held)
        (fun _ _ => True) k
  | [], k, hk => ⟨hk, (List.append_nil _).symm, fun _ h => absurd h List.not_mem_nil, fun _ h => h⟩
  | stat :: stats, k, hk => by
    unfold eachStat
    refine Protocol.Follows.bind ((hone stat k hk).mono ?_ fun _ _ h => h)
    rintro _ k₁ ⟨hk₁, hlog₁, hheld₁⟩
    refine (eachStat_follows hone stats hk₁).mono ?_ fun _ _ h => h
    rintro _ k₂ ⟨hk₂, hlog₂, hheld₂, hkept⟩
    refine ⟨hk₂, ?_, ?_, ?_⟩
    · rw [hlog₂, hlog₁, List.append_assoc]
      rfl
    · intro s hs
      rcases List.mem_cons.mp hs with rfl | hs
      · exact hkept _ (hheld₁ ▸ List.mem_cons_self)
      · exact hheld₂ s hs
    · exact fun l hl => hkept l (hheld₁ ▸ List.mem_cons_of_mem _ hl)

section

variable {file : IngestionFile} {baseline : StatKey → Option RollingStats} {keys : List StatKey}

theorem saveStat_follows (stat : CounterpartyStat) (k : Local schema)
    (hk : Scanning rows file baseline keys k) :
    (scans rows).Follows (saveStat stat) (fun _ k' => Scanning rows file baseline keys k' ∧
      k'.log = k.log ++ [.updateStat stat.key stat.stats] ∧
        k'.held = .statKey stat.key :: k.held) (fun _ _ => True) k := by
  intro n d hl
  exact ⟨fun _ _ _ => trivial,
    hk.later _ hl (fun _ h => List.mem_cons_of_mem _ h) fun _ h => h, rfl, rfl⟩

theorem insertStat_follows (stat : CounterpartyStat) (k : Local schema)
    (hk : Scanning rows file baseline keys k) :
    (scans rows).Follows (insertStat stat) (fun _ k' => Scanning rows file baseline keys k' ∧
      k'.log = k.log ++ [.insertStat stat] ∧
        k'.held = .statKey stat.key :: k.held) (fun _ _ => True) k := by
  refine Protocol.Follows.bind (Protocol.Follows.lockRow fun n d hl => ?_)
  have hlocked : Scanning rows file baseline keys
      { k with held := .statKey stat.key :: k.held, supply := n, db := d } :=
    hk.later _ hl (fun _ h => List.mem_cons_of_mem _ h) fun _ h => h
  refine Protocol.Follows.bind (Protocol.Follows.view fun n' d' hl' => ?_)
  refine Protocol.Follows.bind (Protocol.Follows.require (fun _ => ?_) fun _ => trivial)
  refine Protocol.Follows.put (fun _ _ _ => trivial) ⟨?_, rfl, rfl⟩
  exact hlocked.later _ hl' (fun _ h => h) fun _ h => h

end

/-! ## What a scan commits -/

theorem statOf_cons (row : CounterpartyStat) (rows : List CounterpartyStat) (key : StatKey) :
    statOf (row :: rows) key = if row.key = key then some row.stats else statOf rows key := by
  by_cases hkey : row.key = key <;> simp [statOf, hkey]

/-- Statements that each set the statistics of their row set those of all their rows. -/
theorem statOf_replay {w : CounterpartyStat → RowWrite} {p : Option RollingStats → Prop}
    (hw : ∀ stat (d : Db), p (d.statOf stat.key) → ∀ key, (RowWrite.apply (w stat) d).statOf key =
      if stat.key = key then some stat.stats else d.statOf key) :
    ∀ {stats : List CounterpartyStat} {d : Db}, (stats.map (·.key)).Nodup →
      (∀ stat ∈ stats, p (d.statOf stat.key)) → ∀ key,
        Db.statOf (schema.replay (stats.map w) d) key = (statOf stats key).or (d.statOf key)
  | [], _, _, _, _ => rfl
  | stat :: stats, d, hnodup, hp, key => by
    rw [List.map_cons, List.nodup_cons] at hnodup
    have hstep := hw stat d (hp stat List.mem_cons_self)
    rw [List.map_cons, Schema.replay_cons, statOf_replay hw hnodup.2, statOf_cons, hstep]
    · by_cases hkey : stat.key = key
      · have hnone : statOf stats key = none := statOf_eq_none_iff.mpr fun row hrow heq =>
          hnodup.1 (hkey ▸ heq ▸ List.mem_map_of_mem hrow)
        rw [hnone, if_pos hkey, Option.none_or, if_pos hkey, Option.some_or]
      · rw [if_neg hkey, if_neg hkey]
    · intro row hrow
      have hne : ¬ stat.key = row.key := fun heq => hnodup.1 (heq ▸ List.mem_map_of_mem hrow)
      rw [hstep, if_neg hne]
      exact hp row (List.mem_cons_of_mem _ hrow)

theorem statOf_updateStat (stat : CounterpartyStat) (d : Db)
    (h : (d.statOf stat.key).isSome = true) (key : StatKey) :
    (RowWrite.apply (.updateStat stat.key stat.stats) d).statOf key =
      if stat.key = key then some stat.stats else d.statOf key := by
  have hall : ∀ rows : List CounterpartyStat,
      statOf (rows.map fun s => if s.key = stat.key then { s with stats := stat.stats } else s) key =
        if stat.key = key then (statOf rows key).map fun _ => stat.stats else statOf rows key := by
    intro rows
    induction rows with
    | nil => by_cases hkey : stat.key = key <;> simp [statOf, hkey]
    | cons row rows ih =>
      rw [List.map_cons, statOf_cons, statOf_cons, ih]
      by_cases hrow : row.key = stat.key
      · by_cases hkey : stat.key = key <;> simp [hrow, hkey]
      · rw [if_neg hrow]
        by_cases hkey : row.key = key
        · have hne : ¬ stat.key = key := fun heq => hrow (hkey.trans heq.symm)
          simp [hkey, hne]
        · simp [hkey]
  refine (hall d.stats).trans ?_
  by_cases hkey : stat.key = key
  · obtain ⟨stats, hstats⟩ := Option.isSome_iff_exists.mp h
    have hread : statOf d.stats key = some stats := hkey ▸ hstats
    rw [if_pos hkey, if_pos hkey, hread]
    rfl
  · rw [if_neg hkey, if_neg hkey]
    rfl

theorem statOf_insertStat (stat : CounterpartyStat) (d : Db) (h : d.statOf stat.key = none)
    (key : StatKey) :
    (RowWrite.apply (.insertStat stat) d).statOf key =
      if stat.key = key then some stat.stats else d.statOf key := by
  have happend : (RowWrite.apply (.insertStat stat) d).statOf key =
      (d.statOf key).or (statOf [stat] key) := statOf_append d.stats [stat] key
  rw [happend, statOf_cons]
  by_cases hkey : stat.key = key
  · rw [if_pos hkey, if_pos hkey, ← hkey, h, Option.none_or]
  · rw [if_neg hkey, if_neg hkey]
    exact Option.or_none

/-- The statements on the statistics: an update where something was known, an insertion elsewhere. -/
def statWrites (baseline : StatKey → Option RollingStats) (current : List CounterpartyStat) :
    List RowWrite :=
  (current.filter fun stat => (baseline stat.key).isSome).map
      (fun stat => .updateStat stat.key stat.stats) ++
    (current.filter fun stat => !(baseline stat.key).isSome).map .insertStat

theorem statOf_statWrites {baseline : StatKey → Option RollingStats}
    {current : List CounterpartyStat} {d : Db} (hnodup : (current.map (·.key)).Nodup)
    (hknown : ∀ stat ∈ current, d.statOf stat.key = baseline stat.key) (key : StatKey) :
    Db.statOf (schema.replay (statWrites baseline current) d) key =
      (statOf current key).or (d.statOf key) := by
  have hpart : ∀ p : CounterpartyStat → Bool, ((current.filter p).map (·.key)).Nodup :=
    fun p => hnodup.sublist (List.filter_sublist.map _)
  have hold : ∀ key, Db.statOf (schema.replay ((current.filter fun stat =>
      (baseline stat.key).isSome).map fun stat => .updateStat stat.key stat.stats) d) key =
        (statOf (current.filter fun stat => (baseline stat.key).isSome) key).or (d.statOf key) :=
    statOf_replay (p := fun stats => stats.isSome = true) statOf_updateStat (hpart _)
      fun stat hstat => by
        rw [hknown stat (List.mem_filter.mp hstat).1]
        exact (List.mem_filter.mp hstat).2
  have hdrop : ∀ (p : CounterpartyStat → Bool) (key : StatKey),
      (∀ stat ∈ current, stat.key = key → p stat = false) → statOf (current.filter p) key = none := by
    intro p key h
    refine statOf_eq_none_iff.mpr fun row hrow heq => ?_
    obtain ⟨hmem, hp⟩ := List.mem_filter.mp hrow
    rw [h row hmem heq] at hp
    cases hp
  unfold statWrites
  rw [Schema.replay_append, statOf_replay (p := fun stats => stats = none) statOf_insertStat (hpart _),
    hold]
  · cases hbase : (baseline key).isSome with
    | true =>
      rw [hdrop _ key fun stat _ hkey => by rw [hkey, hbase]; rfl, Option.none_or,
        statOf_filter fun row _ hrow => by rw [hrow, hbase]]
    | false =>
      rw [hdrop (fun stat => (baseline stat.key).isSome) key fun stat _ hkey => by rw [hkey, hbase],
        Option.none_or, statOf_filter fun row _ hrow => by rw [hrow, hbase]; rfl]
  · intro stat hstat
    obtain ⟨hmem, hnew⟩ := List.mem_filter.mp hstat
    have hnone : baseline stat.key = none := by simpa using hnew
    rw [hold, hdrop (fun s => (baseline s.key).isSome) stat.key fun s _ hs => by rw [hs, hnone]; rfl,
      hknown stat hmem, hnone]
    rfl

/-- The new values, for groups that have one each. -/
theorem current_spec {baseline : StatKey → Option RollingStats} :
    ∀ {groups : StatGroups}, (∀ group ∈ groups, (foldGroup baseline group).isSome = true) →
      (groups.filterMap (foldGroup baseline)).map (·.key) = groups.map (·.1) ∧
        ∀ key, statOf (groups.filterMap (foldGroup baseline)) key =
          (groups.find? (·.1 = key)).bind fun group => observeAll (baseline group.1) group.2
  | [], _ => ⟨rfl, fun _ => rfl⟩
  | group :: groups, h => by
    obtain ⟨hkeys, hstat⟩ := current_spec fun g hg => h g (List.mem_cons_of_mem group hg)
    obtain ⟨stat, hfold⟩ := Option.isSome_iff_exists.mp (h group List.mem_cons_self)
    obtain ⟨stats, hobserve, rfl⟩ := Option.map_eq_some_iff.mp hfold
    rw [List.filterMap_cons_some hfold]
    refine ⟨by rw [List.map_cons, hkeys, List.map_cons], fun key => ?_⟩
    rw [statOf_cons, hstat]
    by_cases hkey : group.1 = key
    · simp [hkey, ← hobserve]
    · simp [hkey]

/-- The new values of the groups of some transactions: what was known, with the amounts of the key. -/
theorem statOf_current {baseline : StatKey → Option RollingStats}
    {txns : List NormalisedTransaction}
    (h : ∀ group ∈ groupsOn NormalisedTransaction.statKey txns,
      (foldGroup baseline group).isSome = true) (key : StatKey) :
    statOf ((groupsOn NormalisedTransaction.statKey txns).filterMap (foldGroup baseline)) key =
      if key ∈ (groupsOn NormalisedTransaction.statKey txns).map (·.1)
      then observeAll (baseline key) (txns.filter fun t => t.statKey = key) else none := by
  rw [(current_spec h).2]
  cases hfind : (groupsOn NormalisedTransaction.statKey txns).find? (·.1 = key) with
  | none =>
    rw [if_neg fun hmem => ?_]
    · rfl
    · obtain ⟨group, hgroup, hkey⟩ := List.mem_map.mp hmem
      exact absurd hkey (by simpa using List.find?_eq_none.mp hfind group hgroup)
  | some group =>
    have hmem := List.mem_of_find?_eq_some hfind
    have hkey : group.1 = key := by simpa using List.find?_some hfind
    rw [if_pos (List.mem_map.mpr ⟨group, hmem, hkey⟩), Option.bind_some, rows_of_mem_groupsOn hmem,
      hkey]

def RowWrite.IsAlert : RowWrite → Prop
  | .insertAlert _ => True
  | _ => False

/-- A write that leaves the transactions and the files alone. -/
def RowWrite.LeavesFiles (w : RowWrite) : Prop :=
  ∀ d, (w.apply d).transactions = d.transactions ∧ (w.apply d).files = d.files

theorem statWrites_leavesFiles {baseline : StatKey → Option RollingStats}
    {current : List CounterpartyStat} : ∀ w ∈ statWrites baseline current, w.LeavesFiles := by
  intro w hw d
  rcases List.mem_append.mp hw with hw | hw
  · obtain ⟨stat, -, rfl⟩ := List.mem_map.mp hw
    exact ⟨rfl, rfl⟩
  · obtain ⟨stat, -, rfl⟩ := List.mem_map.mp hw
    exact ⟨rfl, rfl⟩

/-- The log of a scan at its commit. -/
def scanLog (baseline : StatKey → Option RollingStats) (current : List CounterpartyStat)
    (fileId : Id) (now : Instant) (alerts : List RowWrite) : List RowWrite :=
  statWrites baseline current ++ .fileScanned fileId now :: alerts

section

variable {baseline : StatKey → Option RollingStats} {current : List CounterpartyStat}
  {fileId : Id} {now : Instant} {alerts : List RowWrite} {d : Db}

theorem replay_scanLog (h : ∀ w ∈ alerts, w.IsAlert) :
    let d' : Db := schema.replay (scanLog baseline current fileId now alerts) d
    d'.transactions = d.transactions ∧
      d'.files = updateIn (·.id) [fileId] (fun f => { f with anomalyScannedAt := some now })
        d.files ∧
      d'.stats = Db.stats (schema.replay (statWrites baseline current) d) := by
  have halerts : ∀ w ∈ alerts, ∀ d : Db, ((w.apply d).transactions, (w.apply d).files,
      (w.apply d).stats) = (d.transactions, d.files, d.stats) := by
    intro w hw d
    cases w with
    | insertAlert a => rfl
    | _ => exact (h _ hw).elim
  have hstats : ∀ d : Db, (Db.transactions (schema.replay (statWrites baseline current) d),
      Db.files (schema.replay (statWrites baseline current) d)) = (d.transactions, d.files) :=
    Schema.replay_keeps (S := schema) (f := fun d : Db => (d.transactions, d.files))
      fun w hw d => Prod.ext (statWrites_leavesFiles w hw d).1 (statWrites_leavesFiles w hw d).2
  have hrest := Schema.replay_keeps (S := schema)
    (f := fun d : Db => (d.transactions, d.files, d.stats)) halerts
  have hrest' := hrest (RowWrite.apply (.fileScanned fileId now)
    (schema.replay (statWrites baseline current) d))
  simp only [Prod.mk.injEq] at hrest' hstats
  unfold scanLog
  rw [Schema.replay_append, Schema.replay_cons]
  refine ⟨hrest'.1.trans (hstats d).1, ?_, hrest'.2.2⟩
  rw [← (hstats d).2]
  exact hrest'.2.1

theorem find_scanned {d' : Db} (hfiles : d'.files = updateIn (·.id) [fileId]
      (fun f => { f with anomalyScannedAt := some now }) d.files) (id : Id) :
    d'.files.find? (·.id = id) = (d.files.find? (·.id = id)).map fun f =>
      if f.id ∈ [fileId] then { f with anomalyScannedAt := some now } else f := by
  rw [hfiles]
  exact @find_updateIn _ IngestionFile.id (fun f => { f with anomalyScannedAt := some now })
    (fun _ => rfl) [fileId] d.files id

/-- Only the file of the scan becomes scanned. -/
theorem isScanned_update {d' : Db} (hexists : (d.files.find? (·.id = fileId)).isSome = true)
    (hfiles : d'.files = updateIn (·.id) [fileId]
      (fun f => { f with anomalyScannedAt := some now }) d.files) (f : Id) :
    d'.isScanned f = (decide (f = fileId) || d.isScanned f) := by
  unfold Db.isScanned
  rw [find_scanned hfiles]
  cases hfind : d.files.find? (·.id = f) with
  | none =>
    have hne : f ≠ fileId := fun heq => by
      rw [heq] at hfind
      rw [hfind] at hexists
      cases hexists
    simp [hne]
  | some file =>
    have hid : file.id = f := by simpa using List.find?_some hfind
    by_cases heq : f = fileId
    · simp [hid, heq]
    · simp [hid, heq]

end

/-- The amounts scanned afterwards are those scanned before and those of the file. -/
theorem scannedAmounts_perm {d d' : Db} {fileId : Id} (htxns : d'.transactions = d.transactions)
    (hscanned : ∀ f, d'.isScanned f = (decide (f = fileId) || d.isScanned f))
    (hnot : d.isScanned fileId = false) (key : StatKey) :
    (d.scannedAmounts key ++
      ((d.scanTransactions fileId).filter fun t => t.statKey = key).map (·.amountMinor)).Perm
        (d'.scannedAmounts key) := by
  have hsplit := List.filter_append_perm (fun t => d.isScanned t.ingestionFileId)
    (d'.transactions.filter fun t => t.isUnder key && d'.isScanned t.ingestionFileId)
  rw [List.filter_filter, List.filter_filter, htxns] at hsplit
  have hold : (d.transactions.filter fun t => t.isUnder key && d.isScanned t.ingestionFileId) =
      d.transactions.filter fun t => d.isScanned t.ingestionFileId &&
        (t.isUnder key && d'.isScanned t.ingestionFileId) := by
    refine List.filter_congr fun t _ => ?_
    rw [hscanned]
    cases t.isUnder key <;> cases d.isScanned t.ingestionFileId <;> simp
  have hnew : ((d.scanTransactions fileId).filter fun t => t.statKey = key).Perm
      (d.transactions.filter fun t => !d.isScanned t.ingestionFileId &&
        (t.isUnder key && d'.isScanned t.ingestionFileId)) := by
    refine ((List.perm_insertionSort _ _).filter _).trans ?_
    rw [List.filter_filter]
    refine List.Perm.of_eq (List.filter_congr fun t _ => ?_)
    rw [hscanned, NormalisedTransaction.isUnder]
    by_cases hfile : t.ingestionFileId = fileId
    · rw [hfile, hnot]
      by_cases hkey : t.statKey = key <;> simp [hkey]
    · cases d.isScanned t.ingestionFileId <;> simp [hfile]
  unfold Db.scannedAmounts
  rw [← List.map_append, hold, htxns]
  exact ((hnew.append_left _).trans hsplit).map _

/-- What a scan knows and holds when it commits. -/
structure Folded (rows : List NormalisedTransaction) (file : IngestionFile)
    (baseline : StatKey → Option RollingStats) (txns : List NormalisedTransaction)
    (current : List CounterpartyStat) (k : Local schema) : Prop where
  scanning : Scanning rows file baseline (current.map (·.key)) k
  unscanned : file.anomalyScannedAt = none
  reads : ∀ d : Db, d.transactions = rows → d.scanTransactions file.id = txns
  folds : ∀ group ∈ groupsOn NormalisedTransaction.statKey txns,
    (foldGroup baseline group).isSome = true
  values : current =
    (groupsOn NormalisedTransaction.statKey txns).filterMap (foldGroup baseline)
  held : ∀ stat ∈ current, .statKey stat.key ∈ k.held

/-- The commit of a scan keeps the statistics exact and leaves what others hold alone. -/
theorem Folded.commits {file : IngestionFile} {baseline : StatKey → Option RollingStats}
    {txns : List NormalisedTransaction} {current : List CounterpartyStat} {k : Local schema}
    {now : Instant} {alerts : List RowWrite} {n : Nat} {d : Db}
    (h : Folded rows file baseline txns current k)
    (hlog : k.log = scanLog baseline current file.id now alerts) (halerts : ∀ w ∈ alerts, w.IsAlert)
    (hl : (scans rows).Later k n d) :
    (∀ l, l ∉ k.held → (scans rows).agree l d (schema.replay k.log d)) ∧
      (scans rows).inv n (schema.replay k.log d) := by
  have hnow : Scanning rows file baseline (current.map (·.key)) ⟨k.held, k.marks, k.log, n, d⟩ :=
    h.scanning.later _ hl (fun _ h => h) fun _ h => h
  have hfile : d.files.find? (·.id = file.id) = some file := hnow.file
  have hnot : d.isScanned file.id = false := by
    unfold Db.isScanned
    rw [hfile, Option.any_some, h.unscanned]
    rfl
  have hkeys : current.map (·.key) =
      (groupsOn NormalisedTransaction.statKey txns).map (·.1) := h.values ▸ (current_spec h.folds).1
  have hnodup : (current.map (·.key)).Nodup := hkeys ▸ keys_groupsOn_nodup _ _
  have hknown : ∀ stat ∈ current, d.statOf stat.key = baseline stat.key :=
    fun stat hstat => hnow.known _ (List.mem_map_of_mem hstat)
  have hmissing : ∀ key, statOf current key = none ↔ key ∉ current.map (·.key) := by
    intro key
    rw [statOf_eq_none_iff, List.mem_map]
    exact ⟨fun hall ⟨row, hrow, hkey⟩ => hall row hrow hkey,
      fun hnone row hrow hkey => hnone ⟨row, hrow, hkey⟩⟩
  rw [hlog]
  obtain ⟨htxns, hfiles, hstats⟩ := @replay_scanLog baseline current file.id now alerts d halerts
  generalize schema.replay (scanLog baseline current file.id now alerts) d = d' at *
  have hstat : ∀ key, d'.statOf key = (statOf current key).or (d.statOf key) := by
    intro key
    rw [← statOf_statWrites hnodup hknown key, Db.statOf, Db.statOf, hstats]
  have hscanned : ∀ f, d'.isScanned f = (decide (f = file.id) || d.isScanned f) :=
    isScanned_update (by rw [hfile]; rfl) hfiles
  refine ⟨?_, htxns.trans hl.inv.1, ?_⟩
  · intro l hl'
    cases l with
    | file id =>
      have hne : ¬ file.id = id := fun heq => hl' (heq ▸ hnow.lock)
      show d.files.find? (·.id = id) = d'.files.find? (·.id = id)
      rw [find_scanned hfiles]
      cases hfind : d.files.find? (·.id = id) with
      | none => rfl
      | some f =>
        have hid : f.id = id := by simpa using List.find?_some hfind
        rw [Option.map_some, if_neg fun hmem => hne ?_]
        exact (List.mem_singleton.mp hmem).symm.trans hid
    | statKey key =>
      show d.statOf key = d'.statOf key
      have hnone : statOf current key = none := by
        refine (hmissing key).mpr fun hmem => ?_
        obtain ⟨stat, hstat, rfl⟩ := List.mem_map.mp hmem
        exact hl' (h.held stat hstat)
      rw [hstat, hnone, Option.none_or]
    | _ => trivial
  · intro key
    refine Summarises.perm ?_ (scannedAmounts_perm htxns hscanned hnot key)
    rw [hstat, h.reads d hl.inv.1]
    by_cases hkey : key ∈ current.map (·.key)
    · have hsome : statOf current key ≠ none := fun hnone => (hmissing key).mp hnone hkey
      have hfold : statOf current key =
          observeAll (d.statOf key) (txns.filter fun t => t.statKey = key) := by
        have hcurrent := statOf_current h.folds key
        rw [if_pos (hkeys ▸ hkey), ← h.values] at hcurrent
        rw [hcurrent, hnow.known key hkey]
      have hor : (statOf current key).or (d.statOf key) = statOf current key := by
        cases hstats' : statOf current key with
        | none => exact absurd hstats' hsome
        | some stats => rfl
      rw [hor, hfold]
      exact observeAll_summarises _ (hl.inv.2 key)
    · have hempty : (txns.filter fun t => t.statKey = key) = [] := by
        refine List.filter_eq_nil_iff.mpr fun t ht heq => hkey ?_
        rw [hkeys, ← of_decide_eq_true heq]
        exact key_mem_groupsOn ht
      rw [(hmissing key).mpr hkey, Option.none_or, hempty, List.map_nil, List.append_nil]
      exact hl.inv.2 key

/-! ## A scan keeps to the protocol -/

section

variable {file : IngestionFile} {baseline : StatKey → Option RollingStats}
  {txns : List NormalisedTransaction} {current : List CounterpartyStat} {now : Instant}

/-- All statements of the scan have been sent but some of its alerts. -/
def Saved (rows : List NormalisedTransaction) (file : IngestionFile)
    (baseline : StatKey → Option RollingStats) (txns : List NormalisedTransaction)
    (current : List CounterpartyStat) (now : Instant) (k : Local schema) : Prop :=
  Folded rows file baseline txns current k ∧ ∃ alerts : List RowWrite,
    k.log = scanLog baseline current file.id now alerts ∧ ∀ w ∈ alerts, w.IsAlert

theorem Saved.later {k : Local schema} {n m : Nat} {d : Db}
    (h : Saved rows file baseline txns current now k) (hl : (scans rows).Later k n d)
    {held : List RowLock} (hheld : ∀ l ∈ k.held, l ∈ held) :
    Saved rows file baseline txns current now ⟨held, k.marks, k.log, m, d⟩ :=
  ⟨⟨h.1.scanning.later k.log hl hheld fun _ h => h, h.1.unscanned, h.1.reads, h.1.folds, h.1.values,
    fun stat hstat => hheld _ (h.1.held stat hstat)⟩, h.2⟩

theorem Saved.alert {k : Local schema} (h : Saved rows file baseline txns current now k)
    (a : Alert) : Saved rows file baseline txns current now
      { k with log := k.log ++ [.insertAlert a] } := by
  obtain ⟨hfolded, alerts, hlog, halerts⟩ := h
  refine ⟨⟨hfolded.scanning.logged _, hfolded.unscanned, hfolded.reads, hfolded.folds,
    hfolded.values, hfolded.held⟩, alerts ++ [.insertAlert a], ?_, ?_⟩
  · show k.log ++ [_] = _
    rw [hlog]
    simp only [scanLog, List.append_assoc, List.cons_append]
  · intro w hw
    rcases List.mem_append.mp hw with hw | hw
    · exact halerts w hw
    · rw [List.mem_singleton.mp hw]
      trivial

theorem raiseAlert_follows (draft : AlertDraft) (at' : Instant) {k : Local schema}
    (h : Saved rows file baseline txns current now k) :
    (scans rows).Follows (raiseAlert draft at')
      (fun _ k' => Saved rows file baseline txns current now k') (fun _ _ => True) k := by
  refine Protocol.Follows.bind (Protocol.Follows.view fun n d hl => ?_)
  have h₁ := h.later (m := n) hl fun _ h => h
  split
  · exact h₁
  refine Protocol.Follows.bind (Protocol.Follows.lockRow fun n' d' hl' => ?_)
  have h₂ := h₁.later (m := n') hl' fun _ h => List.mem_cons_of_mem
    (.alertKey (String.ofList (draft.dedupeKey.toList.take 300))) h
  refine Protocol.Follows.bind (Protocol.Follows.view fun n'' d'' hl'' => ?_)
  have h₃ := h₂.later (m := n'') hl'' fun _ h => h
  split
  · exact h₃
  refine Protocol.Follows.bind (Protocol.Follows.newId fun m e hm => ?_)
  have h₄ := h₃.later (m := m + 1) hm fun _ h => h
  refine Protocol.Follows.bind (Protocol.Follows.put (fun _ _ _ => trivial) ?_)
  exact h₄.alert _

/-- A row is found for a key of the file exactly where something was known. -/
theorem existing_any {k : Local schema} {keys : List StatKey}
    (h : Scanning rows file baseline keys k) {key : StatKey} (hkey : key ∈ keys) :
    (k.db.existingStats keys).any (fun row => row.key = key) = (baseline key).isSome := by
  rw [← h.known key hkey, Bool.eq_iff_iff, List.any_eq_true, Option.isSome_iff_ne_none, ne_eq,
    Db.statOf, statOf_eq_none_iff]
  constructor
  · rintro ⟨row, hrow, heq⟩ hnone
    exact hnone row (List.mem_filter.mp hrow).1 (of_decide_eq_true heq)
  · intro hsome
    by_contra hnone
    refine hsome fun row hrow heq => hnone ⟨row, List.mem_filter.mpr ⟨hrow, ?_⟩, decide_eq_true heq⟩
    refine decide_eq_true ⟨List.mem_map.mpr ⟨key, hkey, ?_⟩, List.mem_map.mpr ⟨key, hkey, ?_⟩⟩ <;>
      rw [heq]

theorem updateStats_follows {keys : List StatKey} {k : Local schema}
    (hkeys : keys = (groupsOn NormalisedTransaction.statKey txns).map (·.1))
    (h : Scanning rows file baseline keys k) (hlog : k.log = [])
    (hnot : file.anomalyScannedAt = none)
    (hreads : ∀ d : Db, d.transactions = rows → d.scanTransactions file.id = txns) :
    (scans rows).Follows (updateStats (groupsOn (·.statKey) txns) baseline)
      (fun _ k' => Folded rows file baseline txns
        ((groupsOn NormalisedTransaction.statKey txns).filterMap (foldGroup baseline)) k' ∧
        k'.log = statWrites baseline
          ((groupsOn NormalisedTransaction.statKey txns).filterMap (foldGroup baseline)))
      (fun _ _ => True) k := by
  obtain ⟨held, marks, log, supply, db⟩ := k
  obtain rfl : log = [] := hlog
  refine Protocol.Follows.bind (Protocol.Follows.view fun n d hl => ?_)
  have h₁ := h.later (m := n) [] hl (fun _ h => h) fun _ h => h
  refine Protocol.Follows.bind (Protocol.Follows.require (fun hall => ?_) fun _ => trivial)
  have hfolds : ∀ group ∈ groupsOn NormalisedTransaction.statKey txns,
      (foldGroup baseline group).isSome = true := List.all_eq_true.mp hall
  have hcurrent := (current_spec hfolds).1
  -- The rows found decide between the two statements as the baseline does.
  have hfound : ∀ stat ∈ (groupsOn NormalisedTransaction.statKey txns).filterMap
      (foldGroup baseline), (d.existingStats ((groupsOn NormalisedTransaction.statKey txns).map
        (·.1))).any (fun row => row.key = stat.key) = (baseline stat.key).isSome := by
    intro stat hstat
    rw [← hkeys]
    exact existing_any h₁ (hkeys ▸ hcurrent ▸ List.mem_map_of_mem hstat)
  have hold := List.filter_congr hfound
  have hnew := List.filter_congr fun stat hstat => congrArg (!·) (hfound stat hstat)
  refine Protocol.Follows.bind ((eachStat_follows saveStat_follows _ h₁).mono ?_ fun _ _ h => h)
  rintro _ k₂ ⟨h₂, hlog₂, hheld₂, hkept₂⟩
  refine (eachStat_follows insertStat_follows _ h₂).mono ?_ fun _ _ h => h
  rintro _ k₃ ⟨h₃, hlog₃, hheld₃, hkept₃⟩
  refine ⟨⟨?_, hnot, hreads, hfolds, rfl, ?_⟩, ?_⟩
  · rw [hcurrent, ← hkeys]
    exact h₃
  · intro stat hstat
    by_cases hfind : (d.existingStats ((groupsOn NormalisedTransaction.statKey txns).map
        (·.1))).any (fun row => row.key = stat.key) = true
    · exact hkept₃ _ (hheld₂ stat (List.mem_filter.mpr ⟨hstat, hfind⟩))
    · refine hheld₃ stat (List.mem_filter.mpr ⟨hstat, ?_⟩)
      exact congrArg (!·) (Bool.eq_false_iff.mpr hfind)
  · rw [hlog₃, hlog₂]
    exact congrArg₂ (fun old new : List CounterpartyStat =>
      old.map (fun stat => RowWrite.updateStat stat.key stat.stats) ++ new.map .insertStat) hold hnew

variable (svc : AnomalyService)

/-- A scan keeps to the protocol, whatever its rules raise. -/
theorem scanIngestionFile_follows (fileId : Id) (at' : Instant) {k : Local schema}
    (hlog : k.log = []) :
    (scans rows).Follows ((svc.scanIngestionFile fileId at').bind fun _ => .commitNow)
      (fun _ _ => True) (fun _ _ => True) k := by
  obtain ⟨held, marks, log, supply, db⟩ := k
  obtain rfl : log = [] := hlog
  refine Protocol.Follows.bind (Protocol.Follows.bind (Protocol.Follows.lockRow fun n d hl => ?_))
  refine Protocol.Follows.bind (Protocol.Follows.view fun n₁ d₁ hl₁ => ?_)
  have hdone : ∀ outcome : ScanOutcome, ∀ k' : Local schema, k'.log = [] →
      (scans rows).Follows (Prog.pure outcome) (fun _ k => (scans rows).Follows Prog.commitNow
        (fun _ _ => True) (fun _ _ => True) k) (fun _ _ => True) k' := by
    intro outcome k' hnil n' d' hl'
    rw [hnil]
    exact ⟨fun l _ => (scans rows).agree_refl l d', hl'.inv, trivial, trivial⟩
  split
  · trivial
  rename_i file hfile
  obtain rfl : file.id = fileId := by simpa using List.find?_some hfile
  split
  · exact hdone _ _ rfl
  rename_i hscanned
  have hnot : file.anomalyScannedAt = none := by simpa using hscanned
  have hknown : Scanning rows file (statOf []) []
      ⟨.file file.id :: held, marks, [], n₁, d₁⟩ :=
    ⟨List.mem_cons_self, hfile, hl₁.inv.1, fun _ h => absurd h List.not_mem_nil,
      fun _ h => absurd h List.not_mem_nil⟩
  refine Protocol.Follows.bind (Protocol.Follows.view fun n₂ d₂ hl₂ => ?_)
  have hknown₂ := hknown.later (m := n₂) [] hl₂ (fun _ h => h) fun _ h => h
  have hreads : ∀ d : Db, d.transactions = rows →
      d.scanTransactions file.id = d₂.scanTransactions file.id := by
    intro d hd
    unfold Db.scanTransactions
    rw [hd, hl₂.inv.1]
  refine Protocol.Follows.bind ((loadChunks_follows _ hknown₂ rfl
    fun _ h => absurd h List.not_mem_nil).mono ?_ fun _ _ h => h)
  rintro baseline k₃ ⟨hknown₃, hlog₃⟩
  rw [List.nil_append, flatten_chunksOf (by decide)] at hknown₃
  refine Protocol.Follows.bind (Protocol.Follows.view fun n₄ d₄ hl₄ => ?_)
  have hknown₄ := hknown₃.later (m := n₄) k₃.log hl₄ (fun _ h => h) fun _ h => h
  refine Protocol.Follows.bind ((updateStats_follows rfl hknown₄ hlog₃ hnot hreads).mono ?_
    fun _ _ h => h)
  rintro _ k₅ ⟨hfolded, hlog₅⟩
  refine Protocol.Follows.bind (Protocol.Follows.put (fun _ _ _ => trivial) ?_)
  have hsaved : Saved rows file (statOf baseline) (d₂.scanTransactions file.id)
      ((groupsOn NormalisedTransaction.statKey (d₂.scanTransactions file.id)).filterMap
        (foldGroup (statOf baseline))) at' { k₅ with log := k₅.log ++ [.fileScanned file.id at'] } :=
    ⟨⟨hfolded.scanning.logged _, hnot, hreads, hfolded.folds, hfolded.values, hfolded.held⟩, [],
      by rw [hlog₅]; rfl, fun _ h => absurd h List.not_mem_nil⟩
  refine Protocol.Follows.bind ((Protocol.Follows.foldlM (I := fun _ k' => Saved rows file _ _ _ at'
    k') _ ?_ 0 _ hsaved).mono ?_ fun _ _ h => h)
  · intro draft _ raised k' hk'
    exact Protocol.Follows.bind ((raiseAlert_follows draft at' hk').mono (fun _ _ h => h)
      fun _ _ h => h)
  · rintro raised k₆ ⟨hfolded₆, alerts, hlog₆, halerts⟩ n₇ d₇ hl₇
    obtain ⟨hagree, hinv⟩ := hfolded₆.commits hlog₆ halerts hl₇
    exact ⟨hagree, hinv, trivial, trivial⟩

/-- Systems of scans that have not started yet. -/
def AnomalyService.Scans (s : System schema) : Prop :=
  ∀ c ∈ s.clients, ∃ fileId at', c = svc.scanClient fileId at'

theorem AnomalyService.Scans.ready {svc : AnomalyService} {s : System schema} (h : svc.Scans s)
    (hexact : s.db.Exact) : (scans s.db.transactions).Ready s := by
  have hinv : (scans s.db.transactions).inv s.supply s.db := ⟨rfl, hexact⟩
  refine ⟨hinv, ?_, ?_⟩
  · rintro i j l ⟨c, hc, hl⟩
    obtain ⟨fileId, at', rfl⟩ := h c (List.mem_of_getElem? hc)
    exact absurd hl List.not_mem_nil
  · intro i c hc
    obtain ⟨fileId, at', rfl⟩ := h c (List.mem_of_getElem? hc)
    exact ⟨s.supply, s.db, Protocol.Later.refl hinv,
      (scanIngestionFile_follows svc fileId at' rfl).mono (fun _ _ h => h) fun _ _ h => h⟩

end

/-- **No observation is lost** in a run where no step changes statistics that another open scan has
read: in every state it reaches, the count, the mean and the squared deviations stored for a key are
those of the scanned transactions with that key. -/
theorem no_lost_observation (svc : AnomalyService) (s s' : System schema) (es : List Event)
    (hscans : svc.Scans s) (hexact : s.db.Exact)
    (hstable : s.Stable (scans s.db.transactions).same es) (hrun : s.run es = some s') :
    s'.db.Exact :=
  ((hscans.ready hexact).run es hstable hrun).inv.2

/-! ## Three files of one counterparty -/

/-- Before any scan there is nothing to know. -/
theorem exact_of_unscanned {d : Db} (hstats : d.stats = [])
    (hfiles : ∀ f ∈ d.files, f.anomalyScannedAt = none) : d.Exact := by
  intro key
  have hnone : d.statOf key = none := by rw [Db.statOf, hstats]; rfl
  rw [hnone]
  refine List.map_eq_nil_iff.mpr (List.filter_eq_nil_iff.mpr fun t _ h => ?_)
  have hscanned : d.isScanned t.ingestionFileId = true := (Bool.and_eq_true _ _ ▸ h).2
  obtain ⟨f, hfind, hf⟩ := (Option.any_eq_true _ _).mp hscanned
  rw [hfiles f (List.mem_of_find?_eq_some hfind)] at hf
  cases hf

def quietRules : AnomalyService := ⟨fun _ _ _ _ => []⟩

/-- A payment of the counterparty in the file with the same number. -/
def payment (id : Id) (amountMinor : Int) : NormalisedTransaction where
  id := id
  rawTransactionId := id
  ingestionFileId := id
  source := .external
  bankCode := "HDFC"
  sourceLineNo := none
  txnDate := 20700
  settlementDate := none
  txnTimestampUtc := 0
  amountMinor := amountMinor
  currency := "INR"
  direction := .cr
  isReversal := false
  counterpartyNameNormalised := some "ACME"
  narration := none
  narrationNormalised := none
  originalReferenceText := none
  normalisedReference := none
  matchStatus := .unmatched
  voidedOriginalId := none

/-- Three files with a payment each, and a scan of each. -/
def threeScans : System schema where
  db := { transactions := [payment 1 100, payment 2 200, payment 3 600],
          files := [1, 2, 3].map fun id => { id, bankCode := "HDFC", ingestedAt := 0 } }
  supply := 4
  clients := [quietRules.scanClient 1 10, quietRules.scanClient 2 20, quietRules.scanClient 3 30]

def acme : StatKey := ⟨"HDFC", .external, "ACME", .cr, "INR"⟩

/-- What is stored of the count and the mean of the payments, and how many have been scanned. -/
def scanTally (s : System schema) : Option (Nat × Rat) × Nat :=
  ((s.db.statOf acme).map fun stats => (stats.count, stats.mean), (s.db.scannedAmounts acme).length)

/-- One scan after the other. -/
def oneByOne : List Event :=
  List.replicate 12 (.run 0) ++ List.replicate 11 (.run 1) ++ List.replicate 11 (.run 2)

/-- The second and the third scan both read the statistics before either writes them. -/
def sideBySide : List Event :=
  List.replicate 12 (.run 0) ++ List.replicate 4 (.run 1) ++ List.replicate 4 (.run 2) ++
    List.replicate 7 (.run 1) ++ List.replicate 7 (.run 2)

theorem threeScans_scans : quietRules.Scans threeScans := by
  intro c hc
  simp only [threeScans, List.mem_cons, List.not_mem_nil, or_false] at hc
  rcases hc with rfl | rfl | rfl <;> exact ⟨_, _, rfl⟩

theorem threeScans_exact : threeScans.db.Exact :=
  exact_of_unscanned rfl (by decide)

theorem no_lost_observation_oneByOne :
    ∃ s', threeScans.run oneByOne = some s' ∧ scanTally s' = (some (3, 300), 3) ∧ s'.db.Exact := by
  have htally : (threeScans.run oneByOne).map scanTally = some (some (3, 300), 3) := by
    decide +kernel
  obtain ⟨s', hrun, hs'⟩ := Option.map_eq_some_iff.mp htally
  exact ⟨s', hrun, hs', no_lost_observation quietRules threeScans s' oneByOne threeScans_scans
    threeScans_exact (System.stable_of_takesTurns _ _ _ (by decide +kernel)) hrun⟩

/-- Side by side, the observation of the second scan is lost. -/
theorem observation_lost :
    ¬ ∀ (svc : AnomalyService) (s s' : System schema) (es : List Event), svc.Scans s →
      s.db.Exact → s.run es = some s' → s'.db.Exact := by
  intro h
  have htally : (threeScans.run sideBySide).map scanTally = some (some (2, 350), 3) := by
    decide +kernel
  obtain ⟨s', hrun, hs'⟩ := Option.map_eq_some_iff.mp htally
  have hexact := h quietRules threeScans s' sideBySide threeScans_scans threeScans_exact hrun acme
  obtain ⟨hstats, hscanned⟩ := Prod.mk.inj hs'
  obtain ⟨stats, hstat, heq⟩ := Option.map_eq_some_iff.mp hstats
  rw [hstat] at hexact
  have hcount := hexact.2.1
  rw [hscanned, (Prod.mk.inj heq).1] at hcount
  cases hcount

end Recon
