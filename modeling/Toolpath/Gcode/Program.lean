import Toolpath.Gcode.Block
import Toolpath.Geometry.Envelope
import Toolpath.Geometry.Statistics
import Toolpath.Log.Entry
import Toolpath.Numeric.Double
import Toolpath.Text.Lines

/-! Programs: the moves of a text of lines. X, Y and F are modal: a block that leaves one out keeps the value
of the last motion line that had it, zero before any. Lines without a motion word change nothing. -/
namespace Toolpath.Gcode

/-- The values in effect after a motion line. -/
structure Modal where
  x : Float
  y : Float
  feed : Float

namespace Modal

def start : Modal := ⟨0, 0, 0⟩

/-- Overwrites what is given and keeps the rest. -/
def advance (m : Modal) (x y feed : Option Float) : Modal := ⟨x.getD m.x, y.getD m.y, feed.getD m.feed⟩

def afterBlock (m : Modal) (b : Block) : Modal :=
  match b.kind? with
  | some _ => m.advance b.x b.y b.f
  | none => m

def after (m : Modal) (blocks : List Block) : Modal := blocks.foldl afterBlock m

def moves (m : Modal) : List Block → List (Move Float)
  | [] => []
  | b :: rest =>
    let next := m.afterBlock b
    match b.kind? with
    | some kind => ⟨kind, next.x, next.y, next.feed, b.line⟩ :: next.moves rest
    | none => next.moves rest

end Modal

structure Program where
  moves : List (Move Float)
  envelope : Envelope Float
  totalLines : Nat
  diagnostics : List Diagnostic
  final : Modal

namespace Program

def empty : Program := ⟨[], .default, 0, [], .start⟩

/-- Reads lines numbered from `number` on. -/
def readLines (number : Int) : List (List Char) → List (Option Block × List Diagnostic)
  | [] => []
  | line :: rest => Block.ofLine number line :: readLines (number + 1) rest

def ofLines (lines : List (List Char)) : Program :=
  let readings := readLines 1 lines
  let blocks := readings.filterMap (·.1)
  let moves := Modal.start.moves blocks
  { moves
    envelope := .ofMoves moves
    totalLines := lines.length
    diagnostics := Diagnostic.sorted (readings.flatMap (·.2))
    final := Modal.start.after blocks }

def parse (text : List Char) : Program := ofLines (Text.splitLines text)

def statistics (p : Program) : PathStatistics Float := .ofMoves p.moves

def logSource : String := "core.parser"

def readEntry (p : Program) : Log.Entry :=
  Log.info logSource ("Parsed " ++ toString p.moves.length ++ " motion commands from " ++
    toString p.totalLines ++ " lines")

end Program

end Toolpath.Gcode
