import ReconEngine.Api.Access
import ReconEngine.Ingestion.Pipeline

/-!
# Uploaded bytes and names

An upload is read in chunks into a file of its own, up to a limit, and hashed on the way. The name
that the client gave is shown and never used as a path: only its extension is, and only one that the
format allows.

**The laws**: what is kept does not depend on how the bytes were cut into chunks
(`readStream_eq`), and the name that is shown is safe whatever the client gave
(`safeDisplayName_safe`).

**What they do not establish.** That a name says anything about the content: an extension that the
format allows is all that is asked for. Two streams with one digest are one content here and there.
-/

set_option autoImplicit false

namespace Recon

abbrev Bytes := List UInt8

/-! ## Names -/

/-- The parts of a path, of which empty ones and single dots are passed over. -/
def pathParts (text : List Char) : List (List Char) :=
  (text.splitOn '/').filter fun part => part ≠ [] ∧ part ≠ ['.']

/-- `PurePosixPath(text).name`: the last part. -/
def pathName (text : List Char) : List Char := (pathParts text).getLast?.getD []

/-- `name.replace("\\", "/")`. -/
def forwardSlashes (text : List Char) : List Char := text.map fun c => if c = '\\' then '/' else c

/-- What is left of a name after its last dot, with the dot. -/
def afterLastDot (name : List Char) : List Char := (name.reverse.takeWhile (· ≠ '.')).reverse

/-- `PurePosixPath(name).suffix`: none for a name that begins with its last dot or ends with it. -/
def pathSuffix (name : List Char) : List Char :=
  let tail := afterLastDot name
  if tail ≠ [] ∧ tail.length + 1 < name.length then '.' :: tail else []

def maxNameLength : Nat := 200

def forbiddenNameChars : List Char := ['<', '>', ':', '"', '|', '?', '*']

/-- What an upload uses of the standard library. -/
structure UploadLibrary where
  isPrintable : Char → Bool
  lower : Char → Char
  sha256 : Bytes → String

/-- `text.strip(" .")`. -/
def stripEdges (text : List Char) : List Char :=
  let edge := fun c : Char => c = ' ' || c = '.'
  ((text.dropWhile edge).reverse.dropWhile edge).reverse

section

variable (lib : UploadLibrary)

def safeDisplayName (raw : Option String) : String :=
  let base := pathName (forwardSlashes (raw.getD "").toList)
  let cleaned := base.filter fun c => lib.isPrintable c && !forbiddenNameChars.contains c
  let name := (stripEdges cleaned).take maxNameLength
  if name = [] then "upload" else String.ofList name

def extensionOf (name : String) : String :=
  String.ofList ((pathSuffix (pathName (forwardSlashes name.toList))).map lib.lower)

end

/-- What stands in a part of a split stands in the whole, and is not what it is split at. -/
theorem of_mem_splitOn {α : Type} [DecidableEq α] (a : α) :
    ∀ (xs : List α), ∀ part ∈ xs.splitOn a, ∀ y ∈ part, y ≠ a ∧ y ∈ xs := by
  intro xs
  induction xs with
  | nil =>
    intro part hpart y hy
    rw [List.splitOn_nil, List.mem_singleton] at hpart
    rw [hpart] at hy
    cases hy
  | cons x xs ih =>
    intro part hpart y hy
    rw [List.splitOn_cons_eq_if_modifyHead] at hpart
    split at hpart
    · rcases List.mem_cons.mp hpart with hempty | hrest
      · rw [hempty] at hy
        cases hy
      · exact (ih part hrest y hy).imp id (List.mem_cons_of_mem x)
    · rename_i hne
      cases hparts : xs.splitOn a with
      | nil => exact absurd hparts (List.splitOn_ne_nil a xs)
      | cons first rest =>
        rw [hparts] at hpart ih
        rcases List.mem_cons.mp hpart with hfirst | hrest
        · rw [hfirst] at hy
          rcases List.mem_cons.mp hy with heq | hin
          · rw [heq]
            exact ⟨fun h => hne (beq_iff_eq.mpr h), List.mem_cons_self⟩
          · exact (ih first List.mem_cons_self y hin).imp id (List.mem_cons_of_mem x)
        · exact (ih part (List.mem_cons_of_mem _ hrest) y hy).imp id (List.mem_cons_of_mem x)

/-- The name of a path has no slash, nor a backslash where those were turned into slashes. -/
theorem not_slash_of_mem_pathName {text : List Char} {c : Char}
    (h : c ∈ pathName (forwardSlashes text)) : c ≠ '/' ∧ c ≠ '\\' := by
  unfold pathName at h
  cases hlast : (pathParts (forwardSlashes text)).getLast? with
  | none =>
    rw [hlast] at h
    cases h
  | some part =>
    rw [hlast, Option.getD_some] at h
    obtain ⟨hslash, hmem⟩ := of_mem_splitOn '/' _ part
      (List.mem_of_mem_filter (List.mem_of_getLast? hlast)) c h
    refine ⟨hslash, ?_⟩
    obtain ⟨original, -, horiginal⟩ := List.mem_map.mp hmem
    rw [← horiginal]
    split
    · decide
    · assumption

theorem mem_of_mem_stripEdges {text : List Char} {c : Char} (h : c ∈ stripEdges text) : c ∈ text := by
  unfold stripEdges at h
  have hinner := (List.dropWhile_suffix _).subset (List.mem_reverse.mp h)
  exact (List.dropWhile_suffix _).subset (List.mem_reverse.mp hinner)

/-- **The law of names.** Whatever name the client gave, the one that is shown is neither empty nor
long, and has no separator of paths, no character that a file name may not have and none that is not
printable. -/
theorem safeDisplayName_safe (lib : UploadLibrary) (hupload : "upload".toList.all lib.isPrintable)
    (raw : Option String) :
    safeDisplayName lib raw ≠ "" ∧ (safeDisplayName lib raw).length ≤ maxNameLength ∧
      ∀ c ∈ (safeDisplayName lib raw).toList,
        lib.isPrintable c = true ∧ c ≠ '/' ∧ c ≠ '\\' ∧ c ∉ forbiddenNameChars := by
  unfold safeDisplayName
  dsimp only
  split
  · refine ⟨by decide, by decide, ?_⟩
    intro c hc
    have hother : "upload".toList.all
        (fun c => c != '/' && c != '\\' && !forbiddenNameChars.contains c) = true := by decide
    have hprintable := List.all_eq_true.mp hupload c hc
    have hrest := List.all_eq_true.mp hother c hc
    simp only [Bool.and_eq_true, bne_iff_ne, Bool.not_eq_true', List.contains_eq_mem,
      decide_eq_false_iff_not] at hrest
    exact ⟨hprintable, hrest.1.1, hrest.1.2, hrest.2⟩
  · rename_i hname
    refine ⟨?_, ?_, ?_⟩
    · intro hempty
      exact hname (String.ofList_inj.mp hempty)
    · rw [String.length_ofList]
      exact List.length_take_le _ _
    · intro c hc
      rw [String.toList_ofList] at hc
      have hkept := mem_of_mem_stripEdges (List.mem_of_mem_take hc)
      obtain ⟨hbase, hallowed⟩ := List.mem_filter.mp hkept
      rw [Bool.and_eq_true, Bool.not_eq_true', List.contains_eq_mem,
        decide_eq_false_iff_not] at hallowed
      obtain ⟨hslash, hbackslash⟩ := not_slash_of_mem_pathName hbase
      exact ⟨hallowed.1, hslash, hbackslash, hallowed.2⟩

/-! ## Bytes -/

def maxUploadBytes : Nat := 50 * 1024 * 1024

def emptyFile : HttpError := ⟨422, "file is empty"⟩

def fileTooLarge (maxBytes : Nat) : HttpError :=
  ⟨413, "file exceeds the " ++ toString maxBytes ++ " byte limit"⟩

/-- What is left of a stream when nothing more is read. -/
def endStream (written : Bytes) : Except HttpError Bytes :=
  if written = [] then .error emptyFile else .ok written

/-- The loop of `save_stream`, over what the reads give, after the bytes that were written. -/
def readStream (maxBytes : Nat) : List Bytes → Bytes → Except HttpError Bytes
  | [], written => endStream written
  | chunk :: chunks, written =>
    if chunk = [] then endStream written
    else if maxBytes < written.length + chunk.length then .error (fileTooLarge maxBytes)
    else readStream maxBytes chunks (written ++ chunk)

/-- **The law of streams.** However the bytes are cut into chunks, all of them are kept or none. -/
theorem readStream_eq (maxBytes : Nat) {chunks : List Bytes} (h : [] ∉ chunks) :
    readStream maxBytes chunks [] =
      if maxBytes < chunks.flatten.length then .error (fileTooLarge maxBytes)
      else endStream chunks.flatten := by
  have hgeneral : ∀ (chunks : List Bytes) (written : Bytes), [] ∉ chunks →
      written.length ≤ maxBytes → readStream maxBytes chunks written =
        if maxBytes < (written ++ chunks.flatten).length then .error (fileTooLarge maxBytes)
        else endStream (written ++ chunks.flatten) := by
    intro chunks
    induction chunks with
    | nil =>
      intro written _ hsize
      rw [List.flatten_nil, List.append_nil, if_neg (not_lt.mpr hsize)]
      rfl
    | cons chunk chunks ih =>
      intro written hne hsize
      obtain ⟨hfirst, hrest⟩ := not_or.mp (mt List.mem_cons.mpr hne)
      rw [readStream, if_neg (Ne.symm hfirst), List.flatten_cons, ← List.append_assoc]
      split
      · rename_i hlarge
        rw [if_pos]
        rw [List.length_append, List.length_append]
        omega
      · rename_i hfits
        exact ih (written ++ chunk) hrest (by rw [List.length_append]; omega)
  exact hgeneral chunks [] h (Nat.zero_le _)

end Recon
