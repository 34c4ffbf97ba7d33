import ReconEngine.Audit.Canonical
import ReconEngine.Traversal.Except

/-!
# What the canonical bytes say

`SameContent` compares the JSON columns of two entries as JSON. Here they are compared as the Python
values that were handed over (`PyValue.Agree`): equal, but for lists and tuples, which are written
alike, and for the order in which a dictionary was filled.

**The law** (`canonicalBytes_faithful`): entries with the same bytes agree in every field, and a value
that JSON has no text for is rejected however deep it is inside another.

The values directly inside a value are its `children`. `PyValue.induct` is the induction over them, and
what is serialised is described by `Encodes`, which the proofs go by.

**What it does not establish.** That every value can be hashed: floats and foreign objects are
rejected on purpose, and a caller that hands one over gets an error and no entry.
-/

set_option autoImplicit false

namespace Recon

open JsonText

/-! ## Values inside values -/

def PyKey.foreign : PyKey → Bool
  | .str _ => false
  | .other _ => true

namespace PyValue

/-- The items of a list or a tuple. -/
def sequence : PyValue → Option (List PyValue)
  | .list items => some items
  | .tuple items => some items
  | _ => Option.none

/-- The values directly inside a value. -/
def children : PyValue → List PyValue
  | .list items => items
  | .tuple items => items
  | .dict entries => entries.map Prod.snd
  | _ => []

/-- `part` is the value `whole` or is inside it, at any depth. -/
inductive Inside (part : PyValue) : PyValue → Prop
  | self : Inside part part
  | child {whole child : PyValue} (hchild : child ∈ whole.children) (h : Inside part child) :
      Inside part whole

/-- What JSON has no text for, whatever is inside it: a float, a dictionary with a key that is not a
string, and a value of another type, such as a datetime. -/
def foreign : PyValue → Bool
  | .float _ => true
  | .other _ => true
  | .dict entries => entries.any (·.1.foreign)
  | _ => false

/-- The values are equal, a list with the same items as a tuple counting as equal to it. Dictionaries
are equal when one has the entries of the other in some order. -/
inductive Agree : PyValue → PyValue → Prop
  | none : Agree .none .none
  | bool (b : Bool) : Agree (.bool b) (.bool b)
  | int (n : Int) : Agree (.int n) (.int n)
  | str (s : String) : Agree (.str s) (.str s)
  | sequence {v w : PyValue} {items others : List PyValue} (hv : v.sequence = some items)
      (hw : w.sequence = some others) (h : List.Forall₂ Agree items others) : Agree v w
  | dict {entries same others : List (PyKey × PyValue)} (hperm : entries.Perm same)
      (hkeys : same.map Prod.fst = others.map Prod.fst)
      (h : List.Forall₂ Agree (same.map Prod.snd) (others.map Prod.snd)) :
      Agree (.dict entries) (.dict others)

theorem sizeOf_children {v child : PyValue} (h : child ∈ v.children) : sizeOf child < sizeOf v := by
  cases v with
  | list items =>
    have hlt : sizeOf child < sizeOf items := List.sizeOf_lt_of_mem h
    simp only [list.sizeOf_spec]
    omega
  | tuple items =>
    have hlt : sizeOf child < sizeOf items := List.sizeOf_lt_of_mem h
    simp only [tuple.sizeOf_spec]
    omega
  | dict entries =>
    obtain ⟨⟨key, value⟩, hentry, rfl⟩ := List.mem_map.mp h
    have hlt : sizeOf (key, value) < sizeOf entries := List.sizeOf_lt_of_mem hentry
    rw [Prod.mk.sizeOf_spec] at hlt
    simp only [dict.sizeOf_spec]
    omega
  | _ => cases h

/-- Induction over the values inside values. -/
theorem induct {P : PyValue → Prop} (step : ∀ v : PyValue, (∀ child ∈ v.children, P child) → P v)
    (v : PyValue) : P v :=
  step v fun child h =>
    have := sizeOf_children h
    induct step child
termination_by sizeOf v

end PyValue

/-! ## What is serialised -/

/-- The entry of a dictionary and the member that it becomes. -/
def EntryJson (entry : PyKey × PyValue) (member : String × Json) : Prop :=
  entry.1 = .str member.1 ∧ entry.2.json = some member.2

/-- The JSON value of a value, in terms of the values directly inside it. -/
inductive PyValue.Encodes : PyValue → Json → Prop
  | none : Encodes .none .null
  | bool (b : Bool) : Encodes (.bool b) (.bool b)
  | int (n : Int) : Encodes (.int n) (.num n)
  | str (s : String) : Encodes (.str s) (.str s)
  | sequence {v : PyValue} {items : List PyValue} {js : List Json} (hv : v.sequence = some items)
      (h : List.Forall₂ (fun item j => item.json = some j) items js) : Encodes v (.arr js)
  | dict {entries : List (PyKey × PyValue)} {ms members : List (String × Json)}
      (hsorted : ms.insertionSort (fun a b => a.1 ≤ b.1) = members)
      (h : List.Forall₂ EntryJson entries ms) : Encodes (.dict entries) (.obj members)

/-- The items of a list are serialised one by one. -/
theorem validateItems_json {path : String} : ∀ {items : List PyValue} {index : Nat} {js : List Json},
    validateItems items path index = .ok js →
      List.Forall₂ (fun item j => item.json = some j) items (sortedItems js)
  | [], _, _, h => by
    cases h
    exact List.Forall₂.nil
  | item :: items, index, js, h => by
    rw [validateItems] at h
    cases hitem : validateJsonValue item (path ++ "[" ++ toString index ++ "]") with
    | error e => simp only [hitem, reduceCtorEq] at h
    | ok j =>
      simp only [hitem] at h
      cases hrest : validateItems items path (index + 1) with
      | error e => simp only [hrest, Except.map, reduceCtorEq] at h
      | ok rest =>
        rw [hrest] at h
        cases h
        exact List.Forall₂.cons (PyValue.json_of_ok hitem) (validateItems_json hrest)

theorem validateEntries_json {path : String} : ∀ {entries : List (PyKey × PyValue)}
    {ms : List (String × Json)}, validateEntries entries path = .ok ms →
      List.Forall₂ EntryJson entries (sortedMembers ms)
  | [], _, h => by
    cases h
    exact List.Forall₂.nil
  | (.other _, _) :: _, _, h => by cases h
  | (.str key, item) :: entries, ms, h => by
    rw [validateEntries] at h
    cases hitem : validateJsonValue item (path ++ "." ++ key) with
    | error e => simp only [hitem, reduceCtorEq] at h
    | ok j =>
      simp only [hitem] at h
      cases hrest : validateEntries entries path with
      | error e => simp only [hrest, Except.map, reduceCtorEq] at h
      | ok rest =>
        rw [hrest] at h
        cases h
        exact List.Forall₂.cons ⟨rfl, PyValue.json_of_ok hitem⟩ (validateEntries_json hrest)

/-- A value that is serialised was validated. -/
theorem PyValue.validated {v : PyValue} {j : Json} (h : v.json = some j) :
    ∃ k, validateJsonValue v "" = .ok k ∧ j = k.sorted := by
  unfold PyValue.json at h
  split at h
  · rename_i k hk
    exact ⟨k, hk, (Option.some.inj h).symm⟩
  · cases h

/-- What is serialised is described by `Encodes`. -/
theorem PyValue.encodes_of_json {v : PyValue} {j : Json} (h : v.json = some j) : v.Encodes j := by
  obtain ⟨k, hk, rfl⟩ := PyValue.validated h
  have hitems : ∀ items, v.sequence = some items → (validateItems items "" 0).map Json.arr = .ok k →
      v.Encodes k.sorted := by
    intro items hseq hmap
    cases hjs : validateItems items "" 0 with
    | error e => simp only [hjs, Except.map, reduceCtorEq] at hmap
    | ok js =>
      rw [hjs] at hmap
      cases hmap
      rw [Json.sorted]
      exact Encodes.sequence hseq (validateItems_json hjs)
  cases v with
  | none =>
    cases hk
    exact Encodes.none
  | bool b =>
    cases hk
    exact Encodes.bool b
  | int n =>
    cases hk
    exact Encodes.int n
  | str s =>
    cases hk
    exact Encodes.str s
  | list items => exact hitems items rfl (by rwa [validateJsonValue] at hk)
  | tuple items => exact hitems items rfl (by rwa [validateJsonValue] at hk)
  | dict entries =>
    rw [validateJsonValue] at hk
    cases hms : validateEntries entries "" with
    | error e => simp only [hms, Except.map, reduceCtorEq] at hk
    | ok ms =>
      rw [hms] at hk
      cases hk
      rw [Json.sorted]
      exact Encodes.dict rfl (validateEntries_json hms)
  | float _ => cases hk
  | other _ => cases hk

/-! ## The text determines the value -/

theorem PyValue.children_of_sequence {v : PyValue} {items : List PyValue}
    (h : v.sequence = some items) : v.children = items := by
  cases v with
  | list _ => exact Option.some.inj h
  | tuple _ => exact Option.some.inj h
  | _ => cases h

/-- Entries that become the members of one object, sorted, are the same entries. -/
theorem PyValue.agree_dict {entries others : List (PyKey × PyValue)} {ms ns : List (String × Json)}
    (hsorted : ms.insertionSort (fun a b => a.1 ≤ b.1) = ns.insertionSort fun a b => a.1 ≤ b.1)
    (h : List.Forall₂ EntryJson entries ms) (h' : List.Forall₂ EntryJson others ns)
    (hvalues : ∀ entry ∈ entries, ∀ (w : PyValue) (j : Json),
      entry.2.json = some j → w.json = some j → entry.2.Agree w) :
    (PyValue.dict entries).Agree (PyValue.dict others) := by
  have hms : ms.Perm ns :=
    (List.perm_insertionSort _ ms).symm.trans (hsorted ▸ List.perm_insertionSort _ ns)
  obtain ⟨same, hperm, hsame⟩ := Traversal.forall₂_reorder h hms
  have hthrough := Traversal.forall₂_through hsame h'
  refine Agree.dict hperm ?_ ?_
  · rw [← List.forall₂_eq_eq_eq, List.forall₂_map_left_iff, List.forall₂_map_right_iff]
    refine hthrough.imp ?_
    rintro a b ⟨m, ⟨ha, -⟩, hb, -⟩
    exact ha.trans hb.symm
  · rw [List.forall₂_map_left_iff, List.forall₂_map_right_iff]
    refine Traversal.forall₂_of_mem hthrough ?_
    rintro a ha b ⟨m, ⟨-, hja⟩, -, hjb⟩
    exact hvalues a (hperm.mem_iff.mpr ha) b.2 m.2 hja hjb

/-- **Values that are serialised alike agree.** -/
theorem PyValue.agree_of_json (v : PyValue) :
    ∀ (w : PyValue) (j : Json), v.json = some j → w.json = some j → v.Agree w := by
  induction v using PyValue.induct with
  | step v ih =>
    intro w j hv hw
    have hother := encodes_of_json hw
    cases encodes_of_json hv with
    | none =>
      cases hother
      exact Agree.none
    | bool b =>
      cases hother
      exact Agree.bool b
    | int n =>
      cases hother
      exact Agree.int n
    | str s =>
      cases hother
      exact Agree.str s
    | sequence hseq h =>
      cases hother with
      | sequence hseq' h' =>
        refine Agree.sequence hseq hseq' ?_
        refine Traversal.forall₂_of_mem (Traversal.forall₂_through h h') ?_
        rintro item hitem other ⟨k, hk, hk'⟩
        exact ih item (children_of_sequence hseq ▸ hitem) other k hk hk'
    | dict hsorted h =>
      cases hother with
      | dict hsorted' h' =>
        refine agree_dict (hsorted.trans hsorted'.symm) h h' fun entry hentry => ?_
        exact ih entry.2 (List.mem_map_of_mem hentry)

/-! ## What is rejected -/

/-- What is inside a value that is serialised is serialised. -/
theorem PyValue.json_child {v child : PyValue} {j : Json} (h : v.json = some j)
    (hchild : child ∈ v.children) : ∃ k, child.json = some k := by
  cases encodes_of_json h with
  | sequence hseq hitems =>
    rw [children_of_sequence hseq] at hchild
    exact Traversal.forall_mem_of_forall₂ (p := fun item => ∃ k, item.json = some k) hitems
      (fun _ _ k hk => ⟨k, hk⟩) child hchild
  | dict hsorted hentries =>
    obtain ⟨entry, hentry, rfl⟩ := List.mem_map.mp hchild
    exact Traversal.forall_mem_of_forall₂ (p := fun entry => ∃ k, entry.2.json = some k) hentries
      (fun _ _ m hm => ⟨m.2, hm.2⟩) entry hentry
  | _ => cases hchild

/-- A value inside one that is serialised is serialised. -/
theorem PyValue.json_inside {part whole : PyValue} (hinside : part.Inside whole) :
    ∀ {j : Json}, whole.json = some j → ∃ k, part.json = some k := by
  induction hinside with
  | self => exact fun h => ⟨_, h⟩
  | child hchild _ ih =>
    intro j h
    obtain ⟨k, hk⟩ := json_child h hchild
    exact ih hk

theorem PyValue.json_of_foreign {v : PyValue} (h : v.foreign = true) : v.json = Option.none := by
  refine Option.eq_none_iff_forall_ne_some.mpr fun j hj => ?_
  cases encodes_of_json hj with
  | sequence hseq _ =>
    cases v with
    | list _ => cases h
    | tuple _ => cases h
    | _ => cases hseq
  | dict _ hentries =>
    obtain ⟨entry, hentry, hkey⟩ := List.any_eq_true.mp h
    have hstring := Traversal.forall_mem_of_forall₂ (p := fun entry => ∃ key, entry.1 = .str key)
      hentries (fun _ _ m hm => ⟨m.1, hm.1⟩) entry hentry
    obtain ⟨key, heq⟩ := hstring
    rw [heq] at hkey
    cases hkey
  | _ => cases h

/-- **A value with something foreign inside is rejected**, under whatever path it is reported. -/
theorem validateJsonValue_rejects {v part : PyValue} (hforeign : part.foreign = true)
    (hinside : part.Inside v) (path : String) :
    ∃ e, validateJsonValue v path = .error e ∧ e.isCanonicalisation = true := by
  cases hv : validateJsonValue v path with
  | error e => exact ⟨e, rfl, validateJsonValue_error v path e hv⟩
  | ok j =>
    obtain ⟨k, hk⟩ := PyValue.json_inside hinside (PyValue.json_of_ok hv)
    rw [PyValue.json_of_foreign hforeign] at hk
    cases hk

/-! ## Entries -/

/-- The entries agree in every field: moments as instants of UTC, columns of values as values. -/
structure AuditEntryFields.Agree (f g : AuditEntryFields) : Prop where
  eventId : f.eventId = g.eventId
  chainId : f.chainId = g.chainId
  sequenceNo : f.sequenceNo = g.sequenceNo
  occurredAt : f.occurredAt.utc = g.occurredAt.utc
  actorType : f.actorType = g.actorType
  actorId : f.actorId = g.actorId
  actionType : f.actionType = g.actionType
  affectedRecords : f.affectedRecords.Agree g.affectedRecords
  beforeState : f.beforeState.Agree g.beforeState
  afterState : f.afterState.Agree g.afterState
  rationale : f.rationale = g.rationale
  prevHash : f.prevHash = g.prevHash
  serialisationVersion : f.serialisationVersion = g.serialisationVersion

/-- The entry has a naive moment, or something foreign inside one of its columns of values. -/
def AuditEntryFields.Unfit (f : AuditEntryFields) : Prop :=
  f.occurredAt.aware = false ∨
    ∃ column ∈ [f.affectedRecords, f.beforeState, f.afterState],
      ∃ part : PyValue, part.foreign = true ∧ part.Inside column

theorem canonicalBytes_agree {f g : AuditEntryFields} {bytes : ByteArray}
    (hf : canonicalBytes f = .ok bytes) (hg : canonicalBytes g = .ok bytes) : f.Agree g := by
  have hsame := canonicalBytes_inj hf hg
  obtain ⟨-, -, affected, before, after, haffected, hbefore, hafter, -⟩ := canonicalBytes_ok hf
  have haffected := PyValue.json_of_ok haffected
  have hbefore := PyValue.json_of_ok hbefore
  have hafter := PyValue.json_of_ok hafter
  exact {
    eventId := hsame.eventId
    chainId := hsame.chainId
    sequenceNo := hsame.sequenceNo
    occurredAt := congrArg Datetime.utc hsame.occurredAt
    actorType := hsame.actorType
    actorId := hsame.actorId
    actionType := hsame.actionType
    affectedRecords := PyValue.agree_of_json _ _ _ haffected (hsame.affectedRecords ▸ haffected)
    beforeState := PyValue.agree_of_json _ _ _ hbefore (hsame.beforeState ▸ hbefore)
    afterState := PyValue.agree_of_json _ _ _ hafter (hsame.afterState ▸ hafter)
    rationale := hsame.rationale
    prevHash := hsame.prevHash
    serialisationVersion := hsame.serialisationVersion }

theorem canonicalBytes_rejects {f : AuditEntryFields} (h : f.Unfit) :
    ∃ e, canonicalBytes f = .error e ∧ e.isCanonicalisation = true := by
  cases hbytes : canonicalBytes f with
  | error e => exact ⟨e, rfl, canonicalBytes_error hbytes⟩
  | ok bytes =>
    obtain ⟨-, haware, affected, before, after, haffected, hbefore, hafter, -⟩ :=
      canonicalBytes_ok hbytes
    rcases h with hnaive | ⟨column, hcolumn, part, hforeign, hinside⟩
    · rw [hnaive] at haware
      cases haware
    · -- Each of the columns was accepted.
      have hok : ∃ path j, validateJsonValue column path = .ok j := by
        rcases List.mem_cons.mp hcolumn with rfl | hcolumn
        · exact ⟨_, _, haffected⟩
        rcases List.mem_cons.mp hcolumn with rfl | hcolumn
        · exact ⟨_, _, hbefore⟩
        · exact ⟨_, _, List.mem_singleton.mp hcolumn ▸ hafter⟩
      obtain ⟨path, j, hj⟩ := hok
      obtain ⟨e, he, -⟩ := validateJsonValue_rejects hforeign hinside path
      rw [he] at hj
      cases hj

/-- **The canonical encoding is injective**, and what it has no text for is rejected. -/
theorem canonicalBytes_faithful :
    (∀ (f g : AuditEntryFields) (bytes : ByteArray), canonicalBytes f = .ok bytes →
      canonicalBytes g = .ok bytes → f.Agree g) ∧
    (∀ (v part : PyValue) (path : String), part.foreign = true → part.Inside v →
      ∃ e, validateJsonValue v path = .error e ∧ e.isCanonicalisation = true) ∧
    ∀ f : AuditEntryFields, f.Unfit →
      ∃ e, canonicalBytes f = .error e ∧ e.isCanonicalisation = true :=
  ⟨fun _ _ _ => canonicalBytes_agree,
    fun _ _ path hforeign hinside => validateJsonValue_rejects hforeign hinside path,
    fun _ => canonicalBytes_rejects⟩

/-- An entry about some records. -/
def matchEntry (affected : PyValue) : AuditEntryFields where
  eventId := 7
  chainId := "matching"
  sequenceNo := 1
  occurredAt := { utc := 1700000000000000 }
  actorType := "SYSTEM"
  actorId := "matcher"
  actionType := "MATCH_CREATED"
  affectedRecords := affected
  beforeState := .none
  afterState := .dict []
  rationale := "exact"
  prevHash := none
  serialisationVersion := 1

/-- A tuple and a list, in dictionaries filled the other way round; and a float in a list. -/
theorem canonicalBytes_faithful_tuple :
    (matchEntry (.dict [(.str "ids", .tuple [.str "a", .int 2]), (.str "by", .none)])).Agree
        (matchEntry (.dict [(.str "by", .none), (.str "ids", .list [.str "a", .int 2])])) ∧
      (∃ e, validateJsonValue (.list [.float "0.5"]) "after_state" = .error e ∧
        e.isCanonicalisation = true) ∧
      ∃ e, canonicalBytes (matchEntry (.dict [(.str "score", .list [.float "0.5"])])) = .error e ∧
        e.isCanonicalisation = true := by
  obtain ⟨hagree, hvalue, hentry⟩ := canonicalBytes_faithful
  have hinside : (PyValue.float "0.5").Inside (.list [.float "0.5"]) :=
    .child (List.mem_singleton.mpr rfl) .self
  refine ⟨?_, hvalue _ _ _ rfl hinside, hentry _ (.inr ⟨_, List.mem_cons_self, .float "0.5", rfl, ?_⟩)⟩
  · exact hagree _ _ _ rfl rfl
  · exact .child (List.mem_singleton.mpr rfl) hinside

end Recon
