import Mathlib
import Toolpath.Files
import Toolpath.Proofs.Text.Utf8

/-! Paths and the store of files. A path that is put together from parts has just these parts, and what is
written to a place is what is read from it afterwards: writing moves no folder, so the path leads to the
same place. -/
namespace Toolpath

namespace Path

/-- What a part of a path can be: it names something, and no slash parts it further. -/
structure Part (part : List Char) : Prop where
  filled : part ≠ []
  moves : part ≠ ['.']
  whole : '/' ∉ part

theorem splitSlashes_ne_nil (path : List Char) : splitSlashes path ≠ [] := by
  cases path with
  | nil => exact List.cons_ne_nil _ _
  | cons c rest =>
    rw [splitSlashes]
    split
    · exact List.cons_ne_nil _ _
    · split <;> exact List.cons_ne_nil _ _

theorem splitSlashes_cons {c : Char} (other : c ≠ '/') {path part : List Char}
    {parts : List (List Char)} (split : splitSlashes path = part :: parts) :
    splitSlashes (c :: path) = (c :: part) :: parts := by
  simp only [splitSlashes, split, if_neg other]

theorem splitSlashes_slash (path : List Char) :
    splitSlashes ('/' :: path) = [] :: splitSlashes path := by
  cases split : splitSlashes path with
  | nil => exact absurd split (splitSlashes_ne_nil path)
  | cons part parts => simp only [splitSlashes, split, if_true]

theorem splitSlashes_append {part : List Char} (whole : '/' ∉ part) {path next : List Char}
    {parts : List (List Char)} (split : splitSlashes path = next :: parts) :
    splitSlashes (part ++ path) = (part ++ next) :: parts := by
  induction part with
  | nil => exact split
  | cons c part ih =>
    exact splitSlashes_cons (List.ne_of_not_mem_cons whole).symm
      (ih (List.not_mem_of_not_mem_cons whole))

theorem splitSlashes_intercalate {parts : List (List Char)} (some : parts ≠ [])
    (whole : ∀ part ∈ parts, '/' ∉ part) : splitSlashes (['/'].intercalate parts) = parts := by
  induction parts with
  | nil => exact absurd rfl some
  | cons part parts ih =>
    have first := whole part List.mem_cons_self
    cases parts with
    | nil =>
      have alone : splitSlashes (part ++ []) = [part ++ []] := splitSlashes_append first rfl
      simpa [List.intercalate] using alone
    | cons next others =>
      have later := ih (List.cons_ne_nil _ _) (List.forall_mem_of_forall_mem_cons whole)
      have joined : ['/'].intercalate (part :: next :: others) =
          part ++ '/' :: ['/'].intercalate (next :: others) := by
        simp [List.intercalate]
      have parted : splitSlashes ('/' :: ['/'].intercalate (next :: others)) =
          [] :: next :: others := by rw [splitSlashes_slash, later]
      rw [joined, splitSlashes_append first parted, List.append_nil]

theorem whole_of_mem_splitSlashes {path part : List Char} (member : part ∈ splitSlashes path) :
    '/' ∉ part := by
  induction path generalizing part with
  | nil =>
    rw [List.mem_singleton.mp member]
    exact List.not_mem_nil
  | cons c path ih =>
    cases split : splitSlashes path with
    | nil => exact absurd split (splitSlashes_ne_nil path)
    | cons first parts =>
      rw [split] at ih
      by_cases slash : c = '/'
      · subst slash
        rw [splitSlashes_slash, split] at member
        rcases List.mem_cons.mp member with rfl | later
        · exact List.not_mem_nil
        · exact ih later
      · rw [splitSlashes_cons slash split] at member
        rcases List.mem_cons.mp member with rfl | later
        · exact List.not_mem_cons_of_ne_of_not_mem (Ne.symm slash) (ih List.mem_cons_self)
        · exact ih (List.mem_cons_of_mem _ later)

theorem part_of_mem {path part : List Char} (member : part ∈ parts path) : Part part := by
  obtain ⟨inside, kept⟩ := List.mem_filter.mp member
  simp only [Bool.and_eq_true, bne_iff_ne] at kept
  exact ⟨kept.1, kept.2, whole_of_mem_splitSlashes inside⟩

/-- A path that is put together from parts has these parts. -/
theorem parts_ofParts (absolute : Bool) {ps : List (List Char)} (some : ps ≠ [])
    (each : ∀ p ∈ ps, Part p) : parts (ofParts absolute ps) = ps := by
  have split := splitSlashes_intercalate some fun p member => (each p member).whole
  have kept : ps.filter (fun part => part != [] && part != ['.']) = ps := by
    refine List.filter_eq_self.mpr fun p member => ?_
    simp [(each p member).filled, (each p member).moves]
  unfold parts ofParts
  split
  · rw [splitSlashes_slash, split]
    exact kept
  · dsimp only
    rw [split, kept]

theorem name_withName (path : List Char) {name : List Char} (part : Part name) :
    Path.name (withName path name) = name := by
  have each : ∀ p ∈ (parts path).dropLast ++ [name], Part p := by
    intro p member
    rcases List.mem_append.mp member with folder | last
    · exact part_of_mem (List.mem_of_mem_dropLast folder)
    · rwa [List.mem_singleton.mp last]
  rw [Path.name, withName, parts_ofParts _ (by simp) each]
  simp

end Path

namespace FileStore
variable {store after : FileStore} {path place : List Char} {bytes : List UInt8}

theorem follow_folders (same : after.folders = store.folders) {passed parts : List (List Char)}
    {reached : List (List Char)} (followed : store.follow path passed parts = .ok reached) :
    after.follow path passed parts = .ok reached := by
  induction parts generalizing passed with
  | nil => exact followed
  | cons part rest ih =>
    have folder (place : List Char) : after.hasFolder place = store.hasFolder place := by
      rw [hasFolder, hasFolder, same]
    rw [follow] at followed ⊢
    rw [folder]
    split at followed
    · rename_i here
      rw [if_pos here]
      split at followed
      · cases followed
      · rename_i short
        rw [if_neg short]
        exact ih followed
    · split at followed <;> cases followed

theorem locateFile_folders (same : after.folders = store.folders)
    (located : store.locateFile path = .ok place) : after.locateFile path = .ok place := by
  have folder (place : List Char) : after.hasFolder place = store.hasFolder place := by
    rw [hasFolder, hasFolder, same]
  unfold locateFile locate at located ⊢
  split at located
  · cases located
  · rename_i usable
    rw [if_neg usable]
    cases followed : store.follow path [] (Path.parts path) with
    | error fault =>
      rw [followed] at located
      cases located
    | ok reached =>
      rw [followed] at located
      rw [follow_folders same followed]
      simp only [folder]
      exact located

theorem lookup_put (files : List (List Char × List UInt8)) (place : List Char)
    (bytes : List UInt8) : (put files place bytes).lookup place = some bytes := by
  induction files with
  | nil => simp [put]
  | cons file rest ih =>
    obtain ⟨other, old⟩ := file
    rw [put]
    split
    · simp
    · rename_i different
      rw [List.lookup_cons, beq_eq_false_iff_ne.mpr (Ne.symm different)]
      exact ih

/-- A file can be written where a path leads to a place that is no folder. -/
theorem write_eq (located : store.locateFile path = .ok place) (bytes : List UInt8) :
    store.write path bytes = .ok { store with files := put store.files place bytes } := by
  rw [write, located]
  rfl

theorem write_error {fault : Fault} (lost : store.locateFile path = .error fault)
    (bytes : List UInt8) : store.write path bytes = .error fault := by
  rw [write, lost]
  rfl

theorem read?_eq (located : store.locateFile path = .ok place)
    (found : store.files.lookup place = some bytes) : store.read? path = .ok bytes := by
  simp only [read?, located, bind, Except.bind, found]
  rfl

theorem readText?_eq {text : List Char} (read : store.read? path = .ok bytes)
    (decoded : Text.decode? bytes = some text) :
    store.readText? path = .ok (Text.unifyNewlines text) := by
  simp only [readText?, read, bind, Except.bind, decoded]
  rfl

/-- What was written is read. -/
theorem read?_write (written : store.write path bytes = .ok after) : after.read? path = .ok bytes := by
  cases located : store.locateFile path with
  | error fault =>
    rw [write_error located] at written
    cases written
  | ok place =>
    rw [write_eq located] at written
    cases written
    let after : FileStore := { store with files := put store.files place bytes }
    have same : after.folders = store.folders := rfl
    exact read?_eq (locateFile_folders same located) (lookup_put store.files place bytes)

/-- A text that was written is read with its line ends unified. -/
theorem readText?_writeText {text : List Char} (written : store.writeText path text = .ok after) :
    after.readText? path = .ok (Text.unifyNewlines text) :=
  readText?_eq (read?_write written) (Text.decode?_encode text)

end FileStore

end Toolpath
