import Mathlib
import Toolpath.Proofs.Files
import Toolpath.Proofs.Gcode.LineEnds
import Toolpath.Session.Basic

/-! Saving a program and opening it again. The name that it is saved under ends as names of programs do, so
opening never takes the file for a drawing, and the text comes back with its line ends unified. A text
whose carriage returns all stand in front of line feeds reads the same then. -/
namespace Toolpath

/-! Names of programs. -/

namespace Gcode

/-- The name has one of the endings of programs. -/
def IsProgramName (name : List Char) : Prop := extensions.any (endsWith name) = true

instance (name : List Char) : Decidable (IsProgramName name) :=
  inferInstanceAs (Decidable (_ = true))

theorem normalFilename_cases (name : List Char) :
    normalFilename name = "untitled.gcode".toList ∨
      normalFilename name = Text.trim name ∧ IsProgramName (Text.trim name) ∨
      normalFilename name = Text.trim name ++ ".gcode".toList := by
  unfold normalFilename
  dsimp only
  split
  · exact .inl rfl
  · split
    · rename_i ends
      exact .inr (.inl ⟨rfl, ends⟩)
    · exact .inr (.inr rfl)

theorem normalFilename_isProgramName (name : List Char) : IsProgramName (normalFilename name) := by
  rcases normalFilename_cases name with default | ⟨kept, program⟩ | ended
  · rw [default]
    decide
  · rwa [kept]
  · rw [ended]
    refine List.any_eq_true.mpr ⟨".gcode", by decide, ?_⟩
    rw [endsWith, List.isSuffixOf_iff_suffix, Text.lowerAscii, List.map_append]
    exact List.suffix_append _ _

theorem mem_of_mem_trim {name : List Char} {c : Char} (member : c ∈ Text.trim name) : c ∈ name := by
  unfold Text.trim Text.trimEnd Text.trimStart at member
  have inside := (List.dropWhile_sublist _).subset (List.mem_reverse.mp member)
  exact (List.dropWhile_sublist _).subset (List.mem_reverse.mp inside)

/-- The name that a part of a path is saved under is a part again. -/
theorem normalFilename_part {name : List Char} (whole : '/' ∉ name) :
    Path.Part (normalFilename name) where
  filled := fun empty => absurd (normalFilename_isProgramName name) (by rw [empty]; decide)
  moves := fun point => absurd (normalFilename_isProgramName name) (by rw [point]; decide)
  whole := by
    have trimmed : '/' ∉ Text.trim name := fun member => whole (mem_of_mem_trim member)
    rcases normalFilename_cases name with default | ⟨kept, _⟩ | ended
    · rw [default]
      decide
    · rwa [kept]
    · rw [ended, List.mem_append]
      exact not_or.mpr ⟨trimmed, by decide⟩

/-- The endings of programs end in other letters than that of drawings. -/
theorem IsProgramName.last {name : List Char} (program : IsProgramName name) :
    ∃ c ∈ (Text.lowerAscii name).getLast?, c ∈ ['e', 'c', 't'] := by
  obtain ⟨ending, member, ends⟩ := List.any_eq_true.mp program
  obtain ⟨front, whole⟩ := List.isSuffixOf_iff_suffix.mp ends
  rw [← whole]
  simp only [extensions, List.mem_cons, List.not_mem_nil, or_false] at member
  rcases member with rfl | rfl | rfl | rfl
  · exact ⟨'e', by simp, by decide⟩
  · exact ⟨'c', by simp, by decide⟩
  · exact ⟨'c', by simp, by decide⟩
  · exact ⟨'t', by simp, by decide⟩

end Gcode

/-- The ending of a name is an end of it, with a point in front. -/
theorem Path.suffix_eq (path : List Char) : Path.suffix path = [] ∨
    ∃ front ending, Path.name path = front ++ ending ∧ Path.suffix path = '.' :: ending := by
  unfold suffix
  simp only
  split
  · exact .inl rfl
  · refine .inr ⟨((name path).reverse.dropWhile (· != '.')).reverse, _, ?_, rfl⟩
    rw [← List.reverse_append, List.takeWhile_append_dropWhile, List.reverse_reverse]

namespace Session
variable {σ : Type}

theorem isDrawingPath_program {path : List Char} (program : Gcode.IsProgramName (Path.name path)) :
    isDrawingPath path = false := by
  rw [Bool.eq_false_iff]
  intro drawing
  have ending : Text.lowerAscii (Path.suffix path) = ".dxf".toList := by
    simpa [isDrawingPath] using drawing
  obtain ⟨c, last, listed⟩ := program.last
  rcases Path.suffix_eq path with none | ⟨front, suffix, name, some⟩
  · rw [none] at ending
    cases ending
  · rw [some] at ending
    have small : Text.lowerAscii suffix = ['d', 'x', 'f'] := (List.cons.inj ending).2
    rw [name, Text.lowerAscii, List.map_append, ← Text.lowerAscii, ← Text.lowerAscii, small,
      List.getLast?_append] at last
    cases last
    exact absurd listed (by decide)

variable [TickScheduler σ]

/-- Processing a text whose line ends are unified comes to the same but for the text. -/
theorem process_unifyNewlines (s : Session σ) {text : List Char} (paired : Text.Paired text) :
    s.process (Text.unifyNewlines text) = (s.process text).within fun after =>
      { after with text := Text.unifyNewlines text } := by
  unfold process
  simp only [Gcode.parse_unifyNewlines paired]
  rfl

theorem isDrawingPath_savePath {path : List Char} (named : Path.name path ≠ []) :
    isDrawingPath (savePath path) = false := by
  have parts : Path.parts path ≠ [] := by
    intro empty
    exact named (by rw [Path.name, empty]; rfl)
  have last : Path.name path = (Path.parts path).getLast parts := by
    rw [Path.name, List.getLastD_eq_getLast?, List.getLast?_eq_some_getLast parts]
    rfl
  have part : Path.Part (Path.name path) := by
    rw [last]
    exact Path.part_of_mem (List.getLast_mem parts)
  refine isDrawingPath_program ?_
  rw [savePath, Path.name_withName path (Gcode.normalFilename_part part.whole)]
  exact Gcode.normalFilename_isProgramName _

/-- A text is saved where its path, with the name of a program, leads to a place that is no folder;
where it does not, saving fails and leaves everything as it was. What was saved is opened in any
session as the text would be processed there: with the same program, run and view, and the same
reports. Only the text itself has its line ends unified, so that none of its carriage returns may
stand alone. -/
theorem saved_reopens (s opened : Session σ) (store : FileStore) {path text : List Char}
    (named : Path.name path ≠ []) (paired : Text.Paired text) :
    (∀ fault, store.locateFile (savePath path) = .error fault →
      s.saveFile store path (some text) = (store, .failed s fault)) ∧
    ∀ place, store.locateFile (savePath path) = .ok place →
      ∃ after, s.saveFile store path (some text) =
          (after, .noted s [pathNote "Saved " (savePath path)] (savePath path)) ∧
        let loaded := opened.loadFile after (savePath path)
        let processed := opened.process text
        loaded.result = .ok () ∧ loaded.announced = processed.announced ∧
          loaded.state = { processed.state with text := Text.unifyNewlines text } ∧
          loaded.state.program = Gcode.Program.parse text := by
  constructor
  · intro fault lost
    have failed : store.writeText (savePath path) text = .error fault :=
      FileStore.write_error lost _
    simp only [saveFile, if_neg named, Option.getD_some, failed]
  · intro place located
    have written := FileStore.write_eq located (Text.encode text)
    generalize ({ store with files := FileStore.put store.files place (Text.encode text) } :
      FileStore) = after at written
    have saved : store.writeText (savePath path) text = .ok after := written
    refine ⟨after, by simp only [saveFile, if_neg named, Option.getD_some, saved], ?_⟩
    simp only [loadFile, isDrawingPath_savePath named, Bool.false_eq_true, if_false,
      FileStore.readText?_writeText saved, process_unifyNewlines opened paired]
    exact ⟨rfl, rfl, rfl, rfl⟩

/-- A text with line ends of either kind, saved under a name that is taken for a program's. -/
theorem saved_reopens_ended :
    let s : Session (ManualScheduler Nat) := .new ⟨50, 25, 3, 800, 600, 60, 0.9,
      Drawing.CompilerConfig.default.compiler, 3⟩ .empty
    let store := FileStore.empty ['.']
    let text := "G0 X1\r\nG1 Y2\n".toList
    let place := "part.dxf.gcode".toList
    Path.name "part.dxf".toList ≠ [] ∧ Text.Paired text ∧
      store.locateFile (savePath "part.dxf".toList) = .ok place ∧
      ∃ after, s.saveFile store "part.dxf".toList (some text) =
          (after, .noted s [pathNote "Saved " place] place) ∧
        (s.loadFile after place).result = .ok () ∧
          (s.loadFile after place).state.program = Gcode.Program.parse text := by
  intro s store text place
  have named : Path.name "part.dxf".toList ≠ [] := by decide
  have paired : Text.Paired text := by decide
  have spelt : savePath "part.dxf".toList = place := by decide
  have located : store.locateFile (savePath "part.dxf".toList) = .ok place := by
    rw [spelt]
    rfl
  obtain ⟨after, saved, result, _, _, program⟩ := (saved_reopens s s store named paired).2 place located
  rw [spelt] at saved result program
  exact ⟨named, paired, located, after, saved, result, program⟩

/-- A carriage return that stands alone ends a line when the text is opened again, and where there is
no folder nothing can be saved. -/
theorem lone_return_reopens :
    let s : Session (ManualScheduler Nat) := .new ⟨50, 25, 3, 800, 600, 60, 0.9,
      Drawing.CompilerConfig.default.compiler, 3⟩ .empty
    let store := FileStore.empty ['.']
    let text := "G0 X1\rG0 X2".toList
    let saved := s.saveFile store "part".toList (some text)
    saved.2.result.toOption = some "part.gcode".toList ∧
      (s.process text).state.program.totalLines = 1 ∧
      (s.loadFile saved.1 "part.gcode".toList).state.program.totalLines = 2 ∧
      (s.saveFile store "folder/part".toList (some text)).2.result.isOk = false := by
  decide

end Session

end Toolpath
