import Toolpath.FrontEnd.Canvas
import Toolpath.FrontEnd.Document
import Toolpath.Geometry.Grid
import Toolpath.Numeric.Double
import Toolpath.Playback.State
import Toolpath.View

/-! The picture of a path with the tool on it: a grid around the path, the axes, the whole path faintly, the
part of it that the run has covered, and the tool. -/
namespace Toolpath

structure Viewport where
  moves : List (Move Float)
  box : Envelope Float
  playback : PlaybackState Float
  highlighted : LineSet
  gridSpacing : Float
  gridMajorEvery : Float
  view : View Float
  showGrid : Bool
  showAxes : Bool
  showRapid : Bool

namespace Viewport

def new (width height padding fitMargin gridSpacing gridMajorEvery : Float) : Viewport :=
  { moves := []
    box := .default
    playback := .initial
    highlighted := .empty
    gridSpacing
    gridMajorEvery
    view := .fitted .default width height padding fitMargin
    showGrid := true
    showAxes := true
    showRapid := true }

def resetView (v : Viewport) : Viewport := { v with view := v.view.refit v.box v.view.width v.view.height }

def resize (v : Viewport) (width height : Float) : Viewport := { v with view := v.view.refit v.box width height }

def showPath (v : Viewport) (moves : List (Move Float)) (box : Envelope Float) : Viewport :=
  { v with moves, box }.resetView

def showPlayback (v : Viewport) (playback : PlaybackState Float) : Viewport := { v with playback }

def highlight (v : Viewport) (lines : List Int) : Viewport := { v with highlighted := .ofList lines }

inductive DisplayOption where
  | grid
  | axes
  | rapid
  deriving DecidableEq

def DisplayOption.ofName? (name : String) : Option DisplayOption :=
  if name = "grid" then some .grid
  else if name = "axes" then some .axes
  else if name = "rapid" then some .rapid
  else none

def toggle (v : Viewport) : DisplayOption → Viewport
  | .grid => { v with showGrid := !v.showGrid }
  | .axes => { v with showAxes := !v.showAxes }
  | .rapid => { v with showRapid := !v.showRapid }

def press (v : Viewport) (key : String) : Viewport :=
  if key = "G" then v.toggle .grid
  else if key = "A" then v.toggle .axes
  else if key = "R" then v.toggle .rapid
  else if key = "Home" then v.resetView
  else v

def pointed (v : Viewport) (x y : Float) : Except Fault (Float × Float) := v.view.toWorld x y

def place (v : Viewport) (x y : Float) : Float × Float := v.view.toDisplay x y

def segment (v : Viewport) (pen : Pen) (opacity x1 y1 x2 y2 : Float) : CanvasMark :=
  let (dx1, dy1) := v.place x1 y1
  let (dx2, dy2) := v.place x2 y2
  .line pen opacity dx1 dy1 dx2 dy2

def rapidColor : String := "#ffaa00"
def linearColor : String := "#00ff88"
def highlightColor : String := "#ffff00"
def gridColor : String := "100,100,120,38"
def majorGridColor : String := "100,100,120,77"
def axisColor : String := "0,212,255,128"
def axisLabelColor : String := "0,212,255,204"

def kindColor : MoveKind → String
  | .rapid => rapidColor
  | .linear => linearColor

/-- Rapid moves are dashed, with dashes and gaps of five units whatever the width. -/
def kindDashes (kind : MoveKind) (width : Nat) : List Float :=
  match kind with
  | .rapid => [5 / Binary64.ofInt width, 5 / Binary64.ofInt width]
  | .linear => []

def gridMarks (v : Viewport) : Except Fault (List CanvasMark) := do
  let lines ← Grid.lines v.box v.gridSpacing v.gridMajorEvery
  return lines.map fun line =>
    v.segment ⟨if line.major then majorGridColor else gridColor, 1, []⟩ 1 line.x1 line.y1 line.x2 line.y2

/-- The axes end at the padding of the view; the origin is a disc. -/
def axisMarks (v : Viewport) : List CanvasMark :=
  let padding := v.view.padding
  let right := v.view.width - padding
  let (x, y) := v.place 0 0
  let pen : Pen := ⟨axisColor, 2, []⟩
  [.line pen 1 padding y right y,
    .line pen 1 x padding x (v.view.height - padding),
    .disc (.plain axisColor) x y 5,
    .label axisLabelColor (right + 10) (y + 4) "X",
    .label axisLabelColor (x - 4) (padding - 10) "Y",
    .label axisLabelColor (x + 8) (y + 15) "0"]

def pathPen (v : Viewport) (move : Move Float) : Pen :=
  let width := if move.isRapid then 1 else 2
  let color := if v.highlighted.contains move.line then highlightColor else kindColor move.kind
  ⟨color, width, kindDashes move.kind width⟩

def pathMarksFrom (v : Viewport) (x y : Float) : List (Move Float) → List CanvasMark
  | [] => []
  | move :: rest =>
    let following := pathMarksFrom v move.x move.y rest
    if v.showRapid || !move.isRapid then v.segment (v.pathPen move) 0.2 x y move.x move.y :: following
    else following

def pathMarks (v : Viewport) : List CanvasMark := v.pathMarksFrom 0 0 v.moves

/-- A waypoint without a kind counts as the end of a linear move. -/
def coveredMark? (v : Viewport) (previous reached : Waypoint Float) : Option CanvasMark :=
  let kind := reached.kind.getD .linear
  let width := if kind = .rapid then 2 else 3
  if kind = .rapid ∧ ¬v.showRapid then none
  else some (v.segment ⟨kindColor kind, width, kindDashes kind width⟩ 1 previous.x previous.y reached.x reached.y)

def coveredMarks (v : Viewport) : List CanvasMark :=
  let points := v.playback.history.toList
  (points.zip points.tail).filterMap fun (previous, reached) => v.coveredMark? previous reached

def toolMarks (v : Viewport) : List CanvasMark :=
  let (x, y) := v.place v.playback.x v.playback.y
  [.disc (.radial [(0, "255,68,102,204"), (0.5, "255,68,102,77"), (1, "255,68,102,0")]) x y 20,
    .disc (.plain "#ff4466") x y 6,
    .disc (.plain "#ffffff") x y 2]

def paint (v : Viewport) : Except Fault (List CanvasMark) := do
  let grid ← if v.showGrid then v.gridMarks else pure []
  let axes := if v.showAxes then v.axisMarks else []
  return .background "#252532" :: grid ++ axes ++ v.pathMarks ++ v.coveredMarks ++ v.toolMarks

end Viewport

end Toolpath
