import Toolpath.Drawing.Entity
import Toolpath.Gcode.Emit
import Toolpath.Geometry.Planar
import Toolpath.Log.Entry

/-! Compiling a drawing into a program of motions: a header, for each entity a stroke, a footer. A stroke lifts
the pen, moves rapidly to its start, lowers the pen and feeds along its path. -/
namespace Toolpath.Drawing
open Gcode

/-- The constants of the compiler; `precision` is the number of decimals of a coordinate. -/
structure CompilerConfig where
  feedRate : Float
  safeZ : Float
  cutZ : Float
  circleSegments : Int
  arcSegments : Int
  precision : Int

namespace CompilerConfig

def default : CompilerConfig := ⟨400, 5, -1, 36, 18, 3⟩

def penUp (config : CompilerConfig) : List Char :=
  "G0 Z".toList ++ constant config.safeZ ++ "           ; Pen up".toList

def penDown (config : CompilerConfig) : List Char :=
  "G0 Z".toList ++ constant config.cutZ ++ "            ; Pen down".toList

def header (config : CompilerConfig) : List (List Char) :=
  ["%".toList,
    "(Generated from DXF file)".toList,
    "(Feed Rate: ".toList ++ constant config.feedRate ++ " mm/min)".toList,
    "(Safe Z: ".toList ++ constant config.safeZ ++ "mm, Cut Z: ".toList ++ constant config.cutZ ++ "mm)".toList,
    [],
    "G21         ; Millimeters".toList,
    "G90         ; Absolute positioning".toList,
    "G17         ; XY plane".toList,
    [],
    "; Initialize - lift pen and go to origin".toList,
    "G0 Z".toList ++ constant config.safeZ,
    "G0 X0 Y0".toList,
    []]

def footer (config : CompilerConfig) : List (List Char) :=
  ["; Finish - lift pen and return to origin".toList,
    config.penUp,
    "G0 X0 Y0".toList,
    [],
    "M30         ; Program end".toList,
    "%".toList]

def stroke (config : CompilerConfig) (places : Nat) (title : List Char) (start : Float × Float)
    (path : List (Float × Float)) : List (List Char) :=
  [title, config.penUp, "G0 ".toList ++ pointWords places start.1 start.2, config.penDown] ++
    path.map fun (x, y) => "G1 ".toList ++ pointWords places x y ++ " F".toList ++ constant config.feedRate

def circleTitle (places : Nat) (cx cy r : Float) : List Char :=
  "; CIRCLE (center: ".toList ++ coordinate places cx ++ ", ".toList ++ coordinate places cy ++
    ", r: ".toList ++ coordinate places r ++ ")".toList

def polylineTitle (count : Nat) : List Char := "; POLYLINE (".toList ++ Decimal.natural count ++ " points)".toList

/-- The lines of one entity, none if there is nothing to draw. Points are computed before any is written. -/
def compileEntity (config : CompilerConfig) : Entity → Except Fault (List (List Char))
  | .line x1 y1 x2 y2 => do
    let places ← places? config.precision
    return config.stroke places "; LINE".toList (x1, y1) [(x2, y2)]
  | .polyline [] _ | .polyline [_] _ => return []
  | .polyline (first :: second :: rest) closed => do
    let places ← places? config.precision
    let path := second :: rest ++ if closed then [first] else []
    return config.stroke places (polylineTitle (rest.length + 2)) first path
  | .circle cx cy r => do
    let start ← Planar.pointOnCircle cx cy r 0
    let path ← Planar.circlePoints cx cy r config.circleSegments
    let places ← places? config.precision
    return config.stroke places (circleTitle places cx cy r) start path
  | .arc cx cy r start stop => do
    let first ← Planar.pointOnCircle cx cy r start
    let path ← Planar.arcPoints cx cy r start stop config.arcSegments
    let places ← places? config.precision
    return config.stroke places "; ARC".toList first path
  | .unsupported kind => throw (.unsupportedEntity kind)

/-- The bodies that have lines, with the lines of each entity found by `lines`. -/
def bodiesBy (lines : Entity → Except Fault (List (List Char))) (entities : List Entity) :
    Except Fault (List (List (List Char))) :=
  (entities.mapM lines).map (·.filter (· ≠ []))

/-- The lines of a whole program; a blank line ends each body. -/
def programLines (config : CompilerConfig) (bodies : List (List (List Char))) : List (List Char) :=
  config.header ++ bodies.flatMap (· ++ [[]]) ++ config.footer

def compileBy (config : CompilerConfig) (lines : Entity → Except Fault (List (List Char)))
    (entities : List Entity) : Except Fault (List Char) :=
  (bodiesBy lines entities).map fun bodies => Text.joinLines (config.programLines bodies)

def compile (config : CompilerConfig) (entities : List Entity) : Except Fault (List Char) :=
  config.compileBy config.compileEntity entities

def logSource : String := "core.compiler"

def skipNote? : Entity → Option Log.Entry
  | .polyline points _ =>
    if points.length < 2 then
      some (Log.debug logSource ("Skipping polyline with " ++ toString points.length ++ " point(s)"))
    else none
  | _ => none

/-- What is noted while entities are compiled, up to the first one that cannot be. -/
def logBy (config : CompilerConfig) (lines : Entity → Except Fault (List (List Char)))
    (entities : List Entity) : List Log.Entry :=
  let reached := entities.takeWhile fun e => (lines e).isOk
  reached.filterMap skipNote? ++
    match bodiesBy lines entities with
    | .ok bodies =>
      [Log.info logSource ("Compiled " ++ toString bodies.length ++ " entities into " ++
        toString (config.programLines bodies).length ++ " lines of G-code")]
    | .error _ => []

end CompilerConfig

/-- What turns a drawing into the text of a program, with the notes it makes on the way. -/
structure Compiler where
  run : List Entity → List Log.Entry × Except Fault (List Char)

def CompilerConfig.compiler (config : CompilerConfig) : Compiler :=
  ⟨fun entities => (config.logBy config.compileEntity entities, config.compile entities)⟩

end Toolpath.Drawing
