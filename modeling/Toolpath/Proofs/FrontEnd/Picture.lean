import Mathlib
import Toolpath.Proofs.FrontEnd.Freshness
import Toolpath.Proofs.Playback.Legs

/-! The picture of a window draws its path twice: faintly from the moves of the program, and over
that from the history of the run. What the history draws are the first strokes of the path, stroke
for stroke, whatever the view is and whether rapid moves are shown or not. -/
namespace Toolpath

/-- A straight line as it is drawn, its colour and its width aside. -/
structure Stroke where
  x1 : Float
  y1 : Float
  x2 : Float
  y2 : Float
  dashed : Bool

def CanvasMark.stroke? : CanvasMark → Option Stroke
  | .line pen _ x1 y1 x2 y2 => some ⟨x1, y1, x2, y2, !pen.dashes.isEmpty⟩
  | .background _ | .disc .. | .label .. => none

def strokes (marks : List CanvasMark) : List Stroke := marks.filterMap CanvasMark.stroke?

theorem strokes_append (marks others : List CanvasMark) :
    strokes (marks ++ others) = strokes marks ++ strokes others :=
  List.filterMap_append

namespace Viewport

/-- The stroke of a leg, if it is shown. -/
def legStroke? (v : Viewport) (leg : Waypoint Float × Waypoint Float) : Option Stroke :=
  let rapid : Bool := leg.2.kind = some .rapid
  if v.showRapid || !rapid then
    let (x1, y1) := v.place leg.1.x leg.1.y
    let (x2, y2) := v.place leg.2.x leg.2.y
    some ⟨x1, y1, x2, y2, rapid⟩
  else none

theorem coveredMark?_stroke (v : Viewport) (p q : Waypoint Float) :
    (v.coveredMark? p q).bind CanvasMark.stroke? = v.legStroke? (p, q) := by
  unfold coveredMark? legStroke?
  obtain ⟨x, y, _ | _ | _⟩ := q <;> cases v.showRapid <;> rfl

theorem strokes_coveredMarks (v : Viewport) : strokes v.coveredMarks =
    (Waypoint.legs v.playback.history.toList).filterMap v.legStroke? := by
  rw [strokes, coveredMarks, List.filterMap_filterMap]
  exact List.filterMap_congr fun leg _ => v.coveredMark?_stroke leg.1 leg.2

theorem pathMarksFrom_cons (v : Viewport) (x y : Float) (move : Move Float)
    (rest : List (Move Float)) : v.pathMarksFrom x y (move :: rest) =
      (if v.showRapid || !move.isRapid then [v.segment (v.pathPen move) 0.2 x y move.x move.y]
        else []) ++ v.pathMarksFrom move.x move.y rest := by
  rw [pathMarksFrom]
  split <;> rfl

/-- The position carried along the moves is where the next leg begins, past hidden moves as well. -/
theorem strokes_pathMarksFrom (v : Viewport) (p : Waypoint Float) (moves : List (Move Float)) :
    strokes (v.pathMarksFrom p.x p.y moves) =
      (Waypoint.legs (p :: moves.map .ofMove)).filterMap v.legStroke? := by
  induction moves generalizing p with
  | nil => rfl
  | cons move rest ih =>
    have first : strokes (if v.showRapid || !move.isRapid then
        [v.segment (v.pathPen move) 0.2 p.x p.y move.x move.y] else []) =
        [(p, Waypoint.ofMove move)].filterMap v.legStroke? := by
      unfold legStroke?
      obtain ⟨_ | _, x, y, feed, line⟩ := move <;> cases v.showRapid <;> rfl
    have following : strokes (v.pathMarksFrom move.x move.y rest) =
        (Waypoint.legs (.ofMove move :: rest.map .ofMove)).filterMap v.legStroke? :=
      ih (.ofMove move)
    rw [pathMarksFrom_cons, strokes_append, first, following]
    exact List.filterMap_append.symm

theorem strokes_pathMarks (v : Viewport) :
    strokes v.pathMarks = (Move.legs v.moves).filterMap v.legStroke? :=
  v.strokes_pathMarksFrom .start v.moves

/-- Each move that is shown makes one stroke. -/
theorem length_strokes_pathMarksFrom (v : Viewport) (x y : Float) (moves : List (Move Float)) :
    (strokes (v.pathMarksFrom x y moves)).length =
      (moves.filter fun move => v.showRapid || !move.isRapid).length := by
  induction moves generalizing x y with
  | nil => rfl
  | cons move rest ih =>
    rw [pathMarksFrom_cons, strokes_append, List.length_append, ih, List.filter_cons]
    split
    · exact Nat.add_comm 1 _
    · exact Nat.zero_add _

/-- The legs covered are drawn as the moves that they come from. -/
theorem covered_drawn {v : Viewport} (same : v.playback.Consistent v.moves) :
    strokes v.coveredMarks =
      strokes { v with moves := v.moves.take v.playback.index.toNat }.pathMarks := by
  rw [strokes_coveredMarks, strokes_pathMarks, same.legs]
  rfl

theorem drawn_prefix (v : Viewport) (k : Nat) :
    strokes { v with moves := v.moves.take k }.pathMarks <+: strokes v.pathMarks := by
  rw [strokes_pathMarks, strokes_pathMarks, Move.legs_take]
  exact (List.take_prefix k (Move.legs v.moves)).filterMap v.legStroke?

end Viewport

namespace Window
variable {w d : Window}

/-- What a user does to a window, or a clock: a slot, or what changes only how the window looks. -/
inductive Gesture where
  | slot (slot : Slot)
  | toggle (option : Viewport.DisplayOption)
  | press (key : String)
  | resize (width height : Float)
  | resetView
  | focus (focused : Bool)
  | movePointer (x y : Float)
  | select (anchor cursor : Nat)

def gesture (w : Window) : Gesture → Window
  | .slot slot => w.perform slot
  | .toggle option => { w with viewport := w.viewport.toggle option }
  | .press key => { w with viewport := w.viewport.press key }
  | .resize width height => { w with viewport := w.viewport.resize width height }
  | .resetView => { w with viewport := w.viewport.resetView }
  | .focus focused => { w with editor := { w.editor with focused } }
  | .movePointer x y => w.movePointer x y
  | .select anchor cursor => (w.select anchor cursor).1

def gestureAll (w : Window) (gestures : List Gesture) : Window := gestures.foldl gesture w

/-- All that comes from the text and the run is the same in both windows. -/
structure Alike (w d : Window) : Prop where
  session : d.session = w.session
  typing : d.typing = w.typing
  run : d.run = w.run
  document : d.editor.document = w.editor.document
  executionLine : d.editor.executionLine = w.editor.executionLine
  errorLines : d.editor.errorLines = w.editor.errorLines
  moves : d.viewport.moves = w.viewport.moves
  box : d.viewport.box = w.viewport.box
  playback : d.viewport.playback = w.viewport.playback

theorem Alike.of_viewport {v : Viewport} (moves : v.moves = w.viewport.moves)
    (box : v.box = w.viewport.box) (playback : v.playback = w.viewport.playback) :
    Alike w { w with viewport := v } :=
  ⟨rfl, rfl, rfl, rfl, rfl, rfl, moves, box, playback⟩

theorem Alike.engine (alike : Alike w d) : d.engine = w.engine :=
  congrArg Session.engine alike.session

theorem Alike.agrees (alike : Alike w d) (agrees : w.Agrees) : d.Agrees := by
  have engine := alike.engine
  obtain ⟨session, _, run, _, executionLine, errorLines, moves, box, playback⟩ := alike
  obtain ⟨shows, consistent, loaded, program, envelope, reported⟩ := agrees
  constructor
  · rw [engine]
    refine ⟨?_, executionLine.trans shows.executionLine, playback.trans shows.playback⟩
    rw [run, engine]
    exact shows.run
  · rw [engine]
    exact consistent
  · rw [engine, session]
    exact loaded
  · rw [moves, session]
    exact program
  · rw [box, session]
    exact envelope
  · rw [errorLines, session]
    exact reported

theorem Alike.fresh (alike : Alike w d) (fresh : w.Fresh) : d.Fresh := by
  obtain ⟨program, text⟩ := fresh
  constructor
  · rw [alike.session]
    exact program
  · intro still
    rw [alike.session, text (alike.typing.symm.trans still)]
    exact congrArg Document.text alike.document.symm

theorem toggle_alike (w : Window) (option : Viewport.DisplayOption) :
    Alike w { w with viewport := w.viewport.toggle option } := by
  cases option <;> exact .of_viewport rfl rfl rfl

theorem press_alike (w : Window) (key : String) :
    Alike w { w with viewport := w.viewport.press key } := by
  unfold Viewport.press
  split_ifs
  · exact w.toggle_alike .grid
  · exact w.toggle_alike .axes
  · exact w.toggle_alike .rapid
  · exact .of_viewport rfl rfl rfl
  · exact .of_viewport rfl rfl rfl

/-- A gesture comes to turns, or it leaves the text and the run alone. -/
theorem gesture_cases (g : Gesture) (same : w.engine.state.Consistent w.engine.moves) :
    Turns w (w.gesture g) ∨ Alike w (w.gesture g) := by
  cases g with
  | slot slot => exact .inl (perform_turns slot same)
  | toggle option => exact .inr (w.toggle_alike option)
  | press key => exact .inr (w.press_alike key)
  | resize | resetView => exact .inr (.of_viewport rfl rfl rfl)
  | focus | movePointer | select => exact .inr ⟨rfl, rfl, rfl, rfl, rfl, rfl, rfl, rfl, rfl⟩

/-- What every turn keeps and windows that are alike share, gestures keep. -/
theorem gestureAll_keeps {P : Window → Prop} (turn : ∀ {w d}, Turn w d → P w → P d)
    (alike : ∀ {w d}, Alike w d → P w → P d) (gestures : List Gesture)
    (same : w.engine.state.Consistent w.engine.moves) (holds : P w) :
    P (w.gestureAll gestures) := by
  induction gestures generalizing w with
  | nil => exact holds
  | cons g rest ih =>
    rcases gesture_cases g same with turns | like
    · exact ih (turns.consistent same) (turns.keeps turn holds)
    · exact ih (like.engine ▸ same) (alike like holds)

/-- Whatever is done to a window that holds a text, it shows its run, and the program that it shows
is that of the text processed last. -/
theorem gestureAll_shows (blank : Window) (text : List Char) (gestures : List Gesture) :
    let w := (blank.setText text).window.gestureAll gestures
    w.Agrees ∧ w.Fresh ∧ w.viewport.moves = (Gcode.Program.parse w.session.text).moves := by
  intro w
  have first : (blank.setText text).window.Agrees := process_agrees _
  have agrees : w.Agrees :=
    gestureAll_keeps Turn.agrees Alike.agrees gestures first.consistent first
  have fresh : w.Fresh :=
    gestureAll_keeps Turn.fresh Alike.fresh gestures first.consistent (process_fresh _)
  exact ⟨agrees, fresh, agrees.moves.trans (congrArg Gcode.Program.moves fresh.program)⟩

/-- Whatever was typed, opened, run, resized or hidden before, and in whatever order, the strokes
drawn for the history are those drawn for the moves completed so far, one for each of them that is
shown, and so the first strokes of the path: they have the same ends, come in the same order and are
dashed alike. -/
theorem draws_history_as_path (kit : TextKit) (config : SimulatorConfig) (width height : Float)
    {settings : SessionSettings} (configured : config.session = .ok settings)
    (gestures : List Gesture) (showRapid : Bool) :
    ∃ opened, Window.newWith kit config width height = .ok opened ∧ opened.result = .ok () ∧
      let w := opened.window.gestureAll gestures
      let v := { w.viewport with showRapid }
      let completed := v.moves.take w.engine.state.index.toNat
      v.moves = (Gcode.Program.parse w.session.text).moves ∧ v.moves = w.engine.moves ∧
        v.playback = w.engine.state ∧
        strokes v.coveredMarks = strokes { v with moves := completed }.pathMarks ∧
        (strokes v.coveredMarks).length =
          (completed.filter fun move => showRapid || !move.isRapid).length ∧
        strokes v.coveredMarks <+: strokes v.pathMarks := by
  obtain ⟨blank, opened, made, rfl, _⟩ := new_opens kit configured width height
  refine ⟨_, made, rfl, ?_⟩
  intro w v completed
  obtain ⟨agrees, _, shown⟩ := gestureAll_shows blank Session.sample gestures
  have loaded : v.moves = w.engine.moves := agrees.moves.trans agrees.loaded.symm
  have playback : v.playback = w.engine.state := agrees.shows.playback
  have same : v.playback.Consistent v.moves := by
    rw [loaded, playback]
    exact agrees.consistent
  have covered : strokes v.coveredMarks = strokes { v with moves := completed }.pathMarks := by
    rw [Viewport.covered_drawn same, playback]
  refine ⟨shown, loaded, playback, covered, ?_, covered ▸ v.drawn_prefix _⟩
  rw [covered]
  exact Viewport.length_strokes_pathMarksFrom _ 0 0 completed

/-- The default configuration makes a window; here a run has begun and rapid moves are hidden. -/
theorem draws_history_as_path_default :
    ∃ opened, Window.new SimulatorConfig.default 800 600 = .ok opened ∧
      let w := opened.window.gestureAll [.slot .start, .slot (.tick 0), .resize 640 480]
      let v := { w.viewport with showRapid := false }
      let completed := v.moves.take w.engine.state.index.toNat
      strokes v.coveredMarks = strokes { v with moves := completed }.pathMarks ∧
        strokes v.coveredMarks <+: strokes v.pathMarks := by
  obtain ⟨opened, made, _, _, _, _, covered, _, initial⟩ :=
    draws_history_as_path .plain SimulatorConfig.default 800 600 rfl
      [.slot .start, .slot (.tick 0), .resize 640 480] false
  exact ⟨opened, made, covered, initial⟩

end Window

end Toolpath
