import Toolpath.Decimal.Digits
import Toolpath.FrontEnd.Document
import Toolpath.Gcode.Token
import Toolpath.Numeric.Whole

/-! An editor for a program. It marks the line of the cursor, lines that something is reported about and the
line whose move was reached last; later markers lie over earlier ones. The gutter beside the text shows the
numbers of the lines in the colours of the same states. What has the number of a line here is a block of the
document, the first one being line one. -/
namespace Toolpath

/-- A line, counted from one, with the colour behind it. -/
structure LineMarker where
  line : Int
  color : String
  deriving DecidableEq

structure Editor where
  document : Document
  anchor : Nat
  cursor : Nat
  focused : Bool
  readOnly : Bool
  errorLines : LineSet
  /-- Zero if no line is marked. -/
  executionLine : Int
  markers : List LineMarker

namespace Editor

def cursorColor : String := "#44475a"
def warningColor : String := "#664400"
def executionColor : String := "#0f5132"

def ofTextWith (kit : TextKit) (text : List Char) : Editor := ⟨.ofText kit text, 0, 0, false, false, .empty, 0, []⟩

def ofText (text : List Char) : Editor := ofTextWith .plain text

def text (e : Editor) : List Char := e.document.text

def setText (e : Editor) (text : List Char) : Editor :=
  { e with document := .ofText e.document.kit text, anchor := 0, cursor := 0 }

def hasSelection (e : Editor) : Bool := e.anchor != e.cursor

def hasLine (e : Editor) (line : Int) : Bool := 0 < line && line ≤ e.document.blockCount

def marker? (e : Editor) (color : String) (line : Int) : Option LineMarker :=
  if e.hasLine line then some ⟨line, color⟩ else none

/-- The cursor's line is marked while it can be typed into and nothing is selected. -/
def cursorMarker? (e : Editor) : Option LineMarker :=
  if e.readOnly || e.hasSelection then none else some ⟨↑(e.document.blockAt e.cursor + 1), cursorColor⟩

def mark (e : Editor) : Editor :=
  { e with
    markers := e.cursorMarker?.toList ++ e.errorLines.lines.filterMap (e.marker? warningColor) ++
      (e.marker? executionColor e.executionLine).toList }

def setErrorLines (e : Editor) (lines : List Int) : Editor := { e with errorLines := .ofList lines }.mark

def lineStart? (e : Editor) (line : Int) : Option Nat :=
  if e.hasLine line then some (e.document.blockStart (line.toNat - 1)) else none

/-- Marks the line reached last. The cursor follows to its start unless someone types there; the answer is
where it went. -/
def setExecutionLine (e : Editor) (line : Int) : Editor × Option Nat :=
  if line = e.executionLine then (e, none)
  else
    let e := { e with executionLine := line }.mark
    if e.focused then (e, none)
    else
      match e.lineStart? line with
      | some place => ({ e with anchor := place, cursor := place }.mark, some place)
      | none => (e, none)

def select (e : Editor) (start stop : Nat) : Editor := { e with anchor := start, cursor := stop }

def carriesCode (line : List Char) : Bool :=
  let stripped := Text.trim line
  stripped != [] && !Gcode.isCommentLine stripped

/-- The last line of a selection, which a selection that ends at the start of a further line leaves out. -/
def lastSelected (e : Editor) (first stop : Nat) : Nat :=
  let last := e.document.blockAt stop
  if stop = e.document.blockStart last ∧ first < last then last - 1 else last

def selectedCodeLines (e : Editor) : List Int :=
  if e.hasSelection then
    let first := e.document.blockAt (min e.anchor e.cursor)
    let last := e.lastSelected first (max e.anchor e.cursor)
    (List.range' first (last + 1 - first)).filterMap fun index : Nat =>
      if (e.document.blocks[index]?).any carriesCode then some (↑index + 1) else none
  else []

def changeSelection (e : Editor) (start stop : Nat) : Editor × List Int :=
  let e := e.select start stop
  (e.mark, e.selectedCodeLines)

def gutterPadding : Int := 3

/-- Room for as many digits as the last line's number has. -/
def gutterWidth (e : Editor) (charWidth : Int) : Int :=
  gutterPadding + charWidth * (Decimal.natural e.document.blockCount).length

def numberColor (e : Editor) (line : Int) : String :=
  if line = e.executionLine then "#00ff88" else if e.errorLines.contains line then "#ffaa00" else "#6c757d"

/-- What a gutter is painted for: the stretch to paint, the first line shown and where the text begins, the
height of a line, and the lines folded away, by their index. -/
structure GutterView where
  top : Float
  bottom : Float
  first : Int
  offset : Float
  height : Float
  hidden : List Int

structure GutterNumber where
  text : List Char
  color : String
  y : Int

/-- The numbers of `count` lines from `index` on, the first of them at `top`, as far as the stretch goes. -/
def gutterNumbersFrom (e : Editor) (view : GutterView) (index : Nat) (top : Float) :
    Nat → Except Fault (List GutterNumber)
  | 0 => .ok []
  | count + 1 =>
    let bottom := top + view.height
    if view.hidden.contains index then gutterNumbersFrom e view (index + 1) bottom count
    else if view.bottom < top then .ok []
    else if bottom < view.top then gutterNumbersFrom e view (index + 1) bottom count
    else do
      let y ← Binary64.truncate top
      let rest ← gutterNumbersFrom e view (index + 1) bottom count
      return ⟨Decimal.natural (index + 1), e.numberColor ↑(index + 1), y⟩ :: rest

/-- Nothing is painted from a first line that is not there. -/
def gutterNumbers (e : Editor) (view : GutterView) : Except Fault (List GutterNumber) :=
  match view.first with
  | .ofNat first =>
    e.gutterNumbersFrom view first (Binary64.ofInt first * view.height + view.offset) (e.document.blockCount - first)
  | .negSucc _ => .ok []

end Editor

end Toolpath
