import Mathlib
import Toolpath.Proofs.Gcode.Concatenation
import Toolpath.Text.Utf8

/-! Line ends. A carriage return in front of a line feed is a blank at the end of its line, and reading
does not look at blanks there. So a text reads the same with its line ends unified, if each of its
carriage returns stands in front of a line feed; one that stands alone would end a line of its own. -/
namespace Toolpath

namespace Text

/-- Every carriage return stands in front of a line feed. -/
def Paired (text : List Char) : Prop :=
  ∀ front rest, text = front ++ '\r' :: rest → rest.head? = some '\n'

theorem paired_nil : Paired [] := fun front rest shape => by
  cases front <;> cases shape

theorem paired_cons {c : Char} {rest : List Char} :
    Paired (c :: rest) ↔ (c = '\r' → rest.head? = some '\n') ∧ Paired rest := by
  constructor
  · intro paired
    exact ⟨fun returns => paired [] rest (by rw [returns]; rfl),
      fun front after shape => paired (c :: front) after (by rw [shape, List.cons_append])⟩
  · rintro ⟨first, paired⟩ front after shape
    cases front with
    | nil =>
      obtain ⟨rfl, rfl⟩ := List.cons.inj shape
      exact first rfl
    | cons d front => exact paired front after (List.cons.inj shape).2

instance decidablePaired : (text : List Char) → Decidable (Paired text)
  | [] => .isTrue paired_nil
  | _ :: rest =>
    have := decidablePaired rest
    decidable_of_iff _ paired_cons.symm

/-- The line, or the line without the carriage return at its end. -/
def Unended (line line' : List Char) : Prop := line' = line ∨ line = line' ++ ['\r']

theorem Unended.cons {line line' : List Char} (unended : Unended line line') (c : Char) :
    Unended (c :: line) (c :: line') := by
  rcases unended with rfl | rfl
  · exact .inl rfl
  · exact .inr rfl

theorem splitLines_unifyNewlines {text : List Char} (paired : Paired text) :
    List.Forall₂ Unended (splitLines text) (splitLines (unifyNewlines text)) := by
  have broken (rest : List Char) : splitLines ('\n' :: rest) = [] :: splitLines rest :=
    Gcode.splitLines_newline [] rest
  fun_induction unifyNewlines text with
  | case1 => exact .cons (.inl rfl) .nil
  | case2 rest ih =>
    have ended : splitLines ('\r' :: '\n' :: rest) = ['\r'] :: splitLines rest :=
      Gcode.splitLines_newline ['\r'] rest
    rw [ended, broken]
    exact .cons (.inr rfl) (ih (paired_cons.mp (paired_cons.mp paired).2).2)
  | case3 rest single ih =>
    obtain ⟨after, shape⟩ := List.head?_eq_some_iff.mp (paired [] rest rfl)
    exact absurd shape (single after)
  | case4 c rest _ _ ih =>
    have following := ih (paired_cons.mp paired).2
    by_cases newline : c = '\n'
    · rw [newline, broken, broken]
      exact .cons (.inl rfl) following
    · cases lines : splitLines rest with
      | nil => exact absurd lines (splitLines_ne_nil rest)
      | cons line lines' =>
        cases unified : splitLines (unifyNewlines rest) with
        | nil => exact absurd unified (splitLines_ne_nil _)
        | cons line' lines'' =>
          rw [lines, unified, List.forall₂_cons] at following
          simp only [splitLines, lines, unified, if_neg newline]
          exact .cons (following.1.cons c) following.2

end Text

namespace Gcode
variable {c : Char} (blank : Text.isBlank c = true) (number : Int) (line : List Char)
include blank

theorem ofLine_append_blank :
    Block.ofLine number (line ++ [c]) = Block.ofLine number line := by
  have trimmed := Text.trim_append_blanks (List.forall_mem_singleton.mpr blank) line
  have stripped : (LineParts.ofLine (line ++ [c])).stripped = (LineParts.ofLine line).stripped :=
    trimmed
  have same : tokens number (line ++ [c]) = tokens number line ∧
      tokenDiagnostics number (line ++ [c]) = tokenDiagnostics number line := by
    by_cases empty : (LineParts.ofLine line).stripped = []
    · simp only [tokens, tokenDiagnostics, stripped, empty, true_or, if_true, and_self]
    · have parts : LineParts.ofLine (line ++ [c]) = LineParts.ofLine line := by
        unfold LineParts.ofLine
        rw [trimmed, Text.leadingBlanks_append c empty]
      simp only [tokens, tokenDiagnostics, parts, and_self]
  rw [Block.ofLine, same.1, same.2, Block.ofLine]

omit blank in
theorem readLines_congr {lines lines' : List (List Char)}
    (same : List.Forall₂ (fun line line' => ∀ number, Block.ofLine number line =
      Block.ofLine number line') lines lines') (number : Int) :
    Program.readLines number lines = Program.readLines number lines' := by
  induction same generalizing number with
  | nil => rfl
  | cons first _ ih => rw [Program.readLines, Program.readLines, first number, ih]

omit blank in
/-- A text whose carriage returns stand in front of line feeds reads the same with its line ends
unified. -/
theorem parse_unifyNewlines {text : List Char} (paired : Text.Paired text) :
    Program.parse (Text.unifyNewlines text) = Program.parse text := by
  have lines := Text.splitLines_unifyNewlines paired
  have readings (number : Int) := readLines_congr (lines.imp fun line line' unended number => by
    rcases unended with rfl | rfl
    · rfl
    · exact ofLine_append_blank (by decide) number line') number
  rw [Program.parse, Program.parse, Program.ofLines, Program.ofLines, readings, lines.length_eq]

end Gcode

end Toolpath
