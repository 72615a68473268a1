import Mathlib
import Toolpath.Proofs.FrontEnd.Picture
import Toolpath.Proofs.FrontEnd.Positions
import Toolpath.Proofs.Gcode.Acceptance

/-! Selected text and the moves that it stands for. A selection becomes a list of lines, from which
the editor leaves out those without code, and the picture highlights the moves of these lines. A
line that asks for a move is never left out, so a move that is drawn is highlighted just if a
selected character is on its line. -/
namespace Toolpath

namespace Gcode

theorem isMotion_of_silent {line : List Char} (silent : words line = []) :
    isMotion line = false := by
  rw [isMotion, isRapid, isLinear, given, silent]
  rfl

/-- The editor finds code on every line that asks for a motion. -/
theorem carriesCode_of_motion {line : List Char} (motion : isMotion line = true) :
    Editor.carriesCode line = true := by
  have visible : Text.trim line ≠ [] := fun blank => by
    rw [isMotion_of_silent (words_of_blank blank)] at motion
    cases motion
  have code : isCommentLine (Text.trim line) = false := by
    rw [Bool.eq_false_iff]
    intro comment
    rw [isMotion_of_silent (words_of_comment comment)] at motion
    cases motion
  simp [Editor.carriesCode, visible, code]

/-- A move has the number of the line that asks for it. -/
theorem exists_line_of_mem_moves {text : List Char} {move : Move Float}
    (member : move ∈ (Program.parse text).moves) :
    ∃ (index : Nat) (line : List Char), (Text.splitLines text)[index]? = some line ∧
      isMotion line = true ∧ move.line = index + 1 := by
  have looked := (parse_run text).trans (run_lineEffects [] (Text.splitLines text))
  rw [looked, List.mem_filterMap] at member
  obtain ⟨⟨line, number⟩, numbered, made⟩ := member
  obtain ⟨from_one, place⟩ := List.mk_mem_zipIdx_iff_le_and_getElem?_sub.mp numbered
  simp only at made
  split at made
  · rename_i motion
    refine ⟨_, line, place, motion, ?_⟩
    rw [← Option.some.inj made]
    change (number : Int) = ↑(number - 1) + 1
    change 1 ≤ number at from_one
    omega
  · cases made

end Gcode

namespace TextKit

theorem plainChar_blank (c : Char) : Text.isBlank (plainChar c) = Text.isBlank c := by
  unfold plainChar
  split_ifs with separator space
  · rw [separator]
    decide
  · rw [space]
    decide
  · rfl

theorem trim_plain (block : List Char) : Text.trim (block.map plainChar) = (Text.trim block).map plainChar := by
  have dropped (cs : List Char) : (cs.map plainChar).dropWhile Text.isBlank =
      (cs.dropWhile Text.isBlank).map plainChar := by
    rw [List.dropWhile_map]
    congr 2
    funext c
    exact plainChar_blank c
  rw [Text.trim, Text.trimStart, Text.trimEnd, dropped, ← List.map_reverse, dropped, ← List.map_reverse]
  rfl

theorem isCommentLine_plain (line : List Char) :
    Gcode.isCommentLine (line.map plainChar) = Gcode.isCommentLine line := by
  cases line with
  | nil => rfl
  | cons c rest =>
    have first (c : Char) (rest : List Char) :
        Gcode.isCommentLine (c :: rest) = decide (c ∈ ['(', ';', '%']) := by
      unfold Gcode.isCommentLine
      split <;> simp_all
    rw [List.map_cons, first, first]
    unfold plainChar
    split_ifs with separator space
    · rw [separator]
      decide
    · rw [space]
      decide
    · rfl

/-- A block carries code if its line in the text does. -/
theorem carriesCode_plain (block : List Char) :
    Editor.carriesCode (block.map plainChar) = Editor.carriesCode block := by
  have filled : ((Text.trim block).map plainChar != []) = (Text.trim block != []) := by
    cases Text.trim block <;> rfl
  simp only [Editor.carriesCode, trim_plain, isCommentLine_plain, filled]

end TextKit

namespace Editor
open Text (unitCount)
variable {e : Editor}

/-- The blocks of a selection, the last one left out if it ends at its start, are those that hold one of its
positions. -/
theorem between_iff (made : e.document.Made) {start stop index : Nat} (less : start < stop)
    (inside : stop ≤ unitCount e.document.text) :
    (e.document.blockAt start ≤ index ∧ index ≤ e.lastSelected (e.document.blockAt start) stop) ↔
      ∃ position, start ≤ position ∧ position < stop ∧ e.document.Holds index position := by
  obtain ⟨i, first⟩ := made.exists_holds (less.le.trans inside)
  obtain ⟨j, last⟩ := made.exists_holds inside
  rw [lastSelected, made.blockAt_eq first, made.blockAt_eq last]
  constructor
  · rintro ⟨low, high⟩
    have most : index ≤ j := by split at high <;> omega
    rcases Nat.eq_or_lt_of_le low with rfl | behind
    · exact ⟨start, le_rfl, less, first⟩
    · have begins := Document.holds_start (most.trans_lt (made.holds_iff.mp last).1)
      refine ⟨e.document.blockStart index, ?_, ?_, begins⟩
      · by_contra before
        have := made.le_of_holds begins first (Nat.le_of_not_le before)
        omega
      · -- Only the last block may start where the selection ends, and then it is left out.
        by_contra beyond
        have least := made.le_of_holds last begins (Nat.not_lt.mp beyond)
        obtain rfl := Nat.le_antisymm most least
        obtain ⟨_, _, starts, _⟩ := last
        rw [if_pos ⟨by omega, behind⟩] at high
        omega
  · rintro ⟨position, after, before, holds⟩
    have most := made.le_of_holds holds last before.le
    refine ⟨made.le_of_holds first holds after, ?_⟩
    split
    · rename_i ends
      have other : index ≠ j := by
        rintro rfl
        obtain ⟨_, _, starts, _⟩ := holds
        omega
      omega
    · exact most

/-- The lines listed for a selection are those of its blocks, if they carry code. -/
theorem mem_selectedCodeLines_iff (made : e.document.Made) (selected : e.anchor ≠ e.cursor)
    (inside : max e.anchor e.cursor ≤ unitCount e.document.text) (line : Int) :
    line ∈ e.selectedCodeLines ↔ ∃ (index : Nat) (block : List Char), e.document.blocks[index]? = some block ∧
      carriesCode block = true ∧ line = index + 1 ∧ ∃ position, min e.anchor e.cursor ≤ position ∧
        position < max e.anchor e.cursor ∧ e.document.Holds index position := by
  have selection : e.hasSelection = true := bne_iff_ne.mpr selected
  have less : min e.anchor e.cursor < max e.anchor e.cursor := min_lt_max.mpr selected
  have between (index : Nat) := @between_iff e made _ _ index less inside
  rw [selectedCodeLines, if_pos selection]
  simp only [List.mem_filterMap, List.mem_range'_1, ← between]
  constructor
  · rintro ⟨index, ⟨low, high⟩, made⟩
    split at made
    · rename_i code
      obtain ⟨block, here, carries⟩ := (Option.any_eq_true _ _).mp code
      exact ⟨index, block, here, carries, (Option.some.inj made).symm, low, by omega⟩
    · cases made
  · rintro ⟨index, block, here, carries, rfl, low, high⟩
    exact ⟨index, ⟨low, by omega⟩, if_pos ((Option.any_eq_true _ _).mpr ⟨block, here, carries⟩)⟩

end Editor

def CanvasMark.lineColor? : CanvasMark → Option String
  | .line pen .. => some pen.color
  | .background _ | .disc .. | .label .. => none

namespace Viewport

/-- The mark of the path for a move, wherever the move begins. -/
def Draws (v : Viewport) (move : Move Float) (mark : CanvasMark) : Prop :=
  ∃ x y, mark = v.segment (v.pathPen move) 0.2 x y move.x move.y

/-- The path has a mark for each move that is shown, in order. -/
theorem pathMarksFrom_draws (v : Viewport) (x y : Float) (moves : List (Move Float)) :
    List.Forall₂ v.Draws (moves.filter fun move => v.showRapid || !move.isRapid)
      (v.pathMarksFrom x y moves) := by
  induction moves generalizing x y with
  | nil => exact .nil
  | cons move rest ih =>
    rw [pathMarksFrom_cons, List.filter_cons]
    split
    · exact .cons ⟨x, y, rfl⟩ (ih move.x move.y)
    · exact ih move.x move.y

theorem Draws.highlighted_iff {v : Viewport} {move : Move Float} {mark : CanvasMark}
    (draws : v.Draws move mark) :
    mark.lineColor? = some highlightColor ↔ move.line ∈ v.highlighted.lines := by
  obtain ⟨x, y, rfl⟩ := draws
  have plain : kindColor move.kind ≠ highlightColor := by cases move.kind <;> decide
  change some (v.pathPen move).color = _ ↔ _
  simp only [pathPen, LineSet.contains, List.contains_iff_mem, Option.some.injEq]
  split <;> simp_all

end Viewport

namespace Window
variable {w d : Window}

theorem setText_document (w : Window) (text : List Char) :
    (w.setText text).window.editor.document = .ofText w.editor.document.kit text :=
  process_document _

theorem Turn.made (turn : Turn w d) (made : w.editor.document.Made) : d.editor.document.Made := by
  cases turn with
  | type text => exact Document.ofText_made made.lawful text
  | label => exact made
  | process | finish =>
    rw [process_document]
    exact made
  | drive =>
    rw [follow_document]
    exact made

theorem Alike.made (alike : Alike w d) (made : w.editor.document.Made) : d.editor.document.Made :=
  alike.document ▸ made

/-- The moves highlighted for a selection are those with the numbers of its blocks. -/
theorem select_highlights (made : w.editor.document.Made) {anchor cursor : Nat} (selected : anchor ≠ cursor)
    (inside : max anchor cursor ≤ Text.unitCount w.editor.text) (line : Int) :
    line ∈ (w.select anchor cursor).1.viewport.highlighted.lines ↔
      ∃ (index : Nat) (block : List Char), w.editor.document.blocks[index]? = some block ∧
        Editor.carriesCode block = true ∧ line = index + 1 ∧ ∃ position, min anchor cursor ≤ position ∧
          position < max anchor cursor ∧ w.editor.document.Holds index position := by
  have listed := @Editor.mem_selectedCodeLines_iff (w.editor.select anchor cursor) made selected inside line
  exact (LineSet.mem_ofList _ _).trans listed

/-- Where blocks are lines these are the moves whose lines the selection touches. No line that a move comes from is
left out for carrying no code. -/
theorem select_touches (made : w.editor.document.Made)
    (plain : ∀ block ∈ w.editor.document.blocks, TextKit.lineSeparator ∉ block) {anchor cursor : Nat}
    (selected : anchor ≠ cursor) (inside : max anchor cursor ≤ Text.unitCount w.editor.text) {move : Move Float}
    (member : move ∈ (Gcode.Program.parse w.editor.text).moves) :
    move.line ∈ (w.select anchor cursor).1.viewport.highlighted.lines ↔
      ∃ place unit, Text.HasUnit w.editor.text place unit ∧ min anchor cursor ≤ unit ∧
        unit < max anchor cursor ∧ Text.lineNumber w.editor.text place = move.line := by
  rw [select_highlights made selected inside]
  constructor
  · rintro ⟨index, block, _, _, number, position, after, before, holds⟩
    obtain ⟨place, own⟩ := Text.exists_hasUnit (before.trans_le inside)
    exact ⟨place, position, own, after, before, number ▸ (made.holds_iff_lineNumber plain own).mp holds⟩
  · rintro ⟨place, unit, own, after, before, same⟩
    obtain ⟨index, line, here, motion, number⟩ := Gcode.exists_line_of_mem_moves member
    have holds := (made.holds_iff_lineNumber plain own).mpr (same.trans number)
    have lines : Text.splitLines w.editor.text = _ := made.splitLines_text plain
    rw [lines, List.getElem?_map] at here
    obtain ⟨block, held, rfl⟩ := Option.map_eq_some_iff.mp here
    have carries := Gcode.carriesCode_of_motion motion
    rw [TextKit.carriesCode_plain] at carries
    exact ⟨index, block, held, carries, number, unit, after, before, holds⟩

/-- Text that was processed, however the window came to hold it, may be selected in either direction. Of the moves
drawn those in the colour of highlighting are the ones with the number of a block that carries code and holds a
position of the selection. Unless a block holds a line separator, these are the ones whose line has a character of
the selection, its line feed included. -/
theorem highlights_selection {kit : TextKit} (lawful : kit.Lawful) (config : SimulatorConfig)
    (width height : Float) {settings : SessionSettings} (configured : config.session = .ok settings)
    (gestures : List Gesture) (anchor cursor : Nat) :
    ∃ opened, Window.newWith kit config width height = .ok opened ∧ opened.result = .ok () ∧
      let w := opened.window.gestureAll gestures
      let text := w.editor.text
      let blocks := w.editor.document.blocks
      let v := (w.select anchor cursor).1.viewport
      w.typing = false → anchor ≠ cursor → max anchor cursor ≤ Text.unitCount text →
        v.moves = (Gcode.Program.parse text).moves ∧
        List.Forall₂ (fun move mark => v.Draws move mark ∧
            (mark.lineColor? = some Viewport.highlightColor ↔
              ∃ (index : Nat) (block : List Char), blocks[index]? = some block ∧
                Editor.carriesCode block = true ∧ move.line = index + 1 ∧ ∃ position, min anchor cursor ≤ position ∧
                  position < max anchor cursor ∧ w.editor.document.Holds index position) ∧
            ((∀ block ∈ blocks, TextKit.lineSeparator ∉ block) →
              (mark.lineColor? = some Viewport.highlightColor ↔
                ∃ place unit, Text.HasUnit text place unit ∧ min anchor cursor ≤ unit ∧
                  unit < max anchor cursor ∧ Text.lineNumber text place = move.line)))
          (v.moves.filter fun move => v.showRapid || !move.isRapid) v.pathMarks := by
  obtain ⟨blank, opened, created, rfl, kept⟩ := new_opens kit configured width height
  refine ⟨_, created, rfl, ?_⟩
  intro w text blocks v still selected inside
  obtain ⟨_, fresh, shown⟩ := gestureAll_shows blank Session.sample gestures
  have first : (blank.setText Session.sample).window.Agrees := process_agrees _
  have sample : (blank.setText Session.sample).window.editor.document.Made := by
    rw [setText_document, kept]
    exact Document.ofText_made lawful Session.sample
  have made : w.editor.document.Made :=
    gestureAll_keeps (P := (·.editor.document.Made)) Turn.made Alike.made gestures first.consistent sample
  have moves : v.moves = (Gcode.Program.parse text).moves :=
    shown.trans (by rw [fresh.text still])
  have drawn := (List.forall₂_and_left (p := (· ∈ (Gcode.Program.parse text).moves)) _ _).mpr
    ⟨fun _ member => moves ▸ List.mem_of_mem_filter member, v.pathMarksFrom_draws 0 0 v.moves⟩
  refine ⟨moves, drawn.imp fun move mark ⟨member, draws⟩ => ⟨draws, ?_, fun plain => ?_⟩⟩
  · exact draws.highlighted_iff.trans (select_highlights made selected inside move.line)
  · exact draws.highlighted_iff.trans (select_touches made plain selected inside member)

/-- A selection from the end of the first line to the start of the last: the first line has a character in it, its
line feed, and the last has none. -/
theorem highlights_selection_between : TextKit.units.Lawful ∧
    let text := "G0 X5\n(park)\nG1 X9".toList
    ∃ opened, Window.newWith .units SimulatorConfig.default 800 600 = .ok opened ∧
      let w := opened.window.gestureAll [.slot (.setText text), .toggle .grid]
      let v := (w.select 13 5).1.viewport
      w.editor.text = text ∧ v.moves = (Gcode.Program.parse text).moves ∧
        List.Forall₂ (fun move mark => v.Draws move mark ∧
            (mark.lineColor? = some Viewport.highlightColor ↔
              ∃ place unit, Text.HasUnit text place unit ∧ 5 ≤ unit ∧ unit < 13 ∧
                Text.lineNumber text place = move.line))
          (v.moves.filter fun move => v.showRapid || !move.isRapid) v.pathMarks := by
  refine ⟨TextKit.units_lawful, ?_⟩
  intro text
  obtain ⟨opened, made, _, highlights⟩ := highlights_selection TextKit.units_lawful SimulatorConfig.default
    800 600 rfl [.slot (.setText text), .toggle .grid] 13 5
  have held : (opened.window.gestureAll [.slot (.setText text), .toggle .grid]).editor.document =
      .ofText .units text := by
    have kit : opened.window.editor.document.kit = .units := performAll_kit rfl made []
    exact kit ▸ setText_document opened.window text
  have same : (opened.window.gestureAll [.slot (.setText text), .toggle .grid]).editor.text = text :=
    (congrArg Document.text held).trans (by decide)
  have highlighted := highlights rfl (by decide) (by rw [same]; decide)
  rw [same] at highlighted
  refine ⟨opened, made, same, highlighted.1, highlighted.2.imp fun move mark drawn => ⟨drawn.1, drawn.2.2 ?_⟩⟩
  rw [held]
  decide

/-- Behind a line separator the numbers of blocks are not those of lines: with the third line selected, it is the
second one whose move is highlighted. -/
theorem separator_misleads_selection :
    let text := "G1 X1".toList ++ TextKit.lineSeparator :: "G1 X2\nG1 X3".toList
    ∃ opened, Window.newWith .units SimulatorConfig.default 800 600 = .ok opened ∧
      let w := opened.window.gestureAll [.slot (.setText text)]
      let v := (w.select 12 17).1.viewport
      let drawn := v.moves.filter fun move => v.showRapid || !move.isRapid
      w.editor.text = "G1 X1\nG1 X2\nG1 X3".toList ∧ drawn.map (·.line) = [1, 2, 3] ∧
        Text.HasUnit w.editor.text 12 12 ∧ Text.lineNumber w.editor.text 12 = 3 ∧
        List.Forall₂ (fun move mark => v.Draws move mark ∧
          (mark.lineColor? = some Viewport.highlightColor ↔ move.line = 2)) drawn v.pathMarks := by
  intro text
  obtain ⟨blank, opened, made, rfl, kept⟩ :=
    new_opens .units (rfl : SimulatorConfig.default.session = .ok _) 800 600
  refine ⟨_, made, ?_⟩
  intro w v drawn
  have held : w.editor.document = .ofText .units text := by
    have kit : (blank.setText Session.sample).window.editor.document.kit = .units := performAll_kit rfl made []
    exact kit ▸ setText_document (blank.setText Session.sample).window text
  have same : w.editor.text = "G1 X1\nG1 X2\nG1 X3".toList := (congrArg Document.text held).trans (by decide)
  obtain ⟨_, fresh, shown⟩ := gestureAll_shows blank Session.sample [.slot (.setText text)]
  have moves : v.moves = (Gcode.Program.parse "G1 X1\nG1 X2\nG1 X3".toList).moves :=
    shown.trans (by rw [fresh.text rfl, ← same])
  have all : drawn = v.moves := by
    have linear : ∀ move ∈ v.moves, (v.showRapid || !move.isRapid) = true := by
      have : ∀ move ∈ v.moves, move.isRapid = false := by
        rw [moves]
        decide +kernel
      simp_all
    exact List.filter_eq_self.mpr linear
  have selected : (w.editor.select 12 17).selectedCodeLines = [2] := by
    simp only [Editor.selectedCodeLines, Editor.select, Editor.lastSelected, Editor.hasSelection, held]
    decide
  have highlighted (line : Int) : line ∈ v.highlighted.lines ↔ line = 2 := by
    have listed := LineSet.mem_ofList (w.editor.select 12 17).selectedCodeLines line
    rw [selected, List.mem_singleton, ← selected] at listed
    exact listed
  refine ⟨same, ?_, ?_, ?_, (v.pathMarksFrom_draws 0 0 v.moves).imp fun move mark draws => ⟨draws, ?_⟩⟩
  · rw [all, moves]
    decide +kernel
  · rw [same, Text.hasUnit_iff (by decide) (by simp)]
  · rw [same]
    decide
  · rw [draws.highlighted_iff, highlighted]

end Window

end Toolpath
