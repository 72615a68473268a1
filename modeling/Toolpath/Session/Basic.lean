import Toolpath.Drawing.Compile
import Toolpath.Drawing.Dxf
import Toolpath.Files
import Toolpath.Gcode.Filename
import Toolpath.Gcode.Program
import Toolpath.Tick.Controller
import Toolpath.View

/-! A session joins everything that works on one program: the text processed last and what it reads as, the
reports of the drawing converted last, the run with its ticks, and a view fitted to the program. Processing a
text resets the run and fits the view anew. -/
namespace Toolpath

structure SessionSettings where
  speed : Int
  speedDivisor : Float
  rapidFactor : Float
  width : Float
  height : Float
  padding : Float
  fitMargin : Float
  compiler : Drawing.Compiler
  precision : Int

structure Session (σ : Type) where
  compiler : Drawing.Compiler
  precision : Int
  controller : Controller Float σ
  view : View Float
  text : List Char
  program : Gcode.Program
  drawingDiagnostics : List Diagnostic

namespace Session
variable {σ : Type}

def logSource : String := "gcode_processor"

def new (settings : SessionSettings) (scheduler : σ) : Session σ :=
  { compiler := settings.compiler
    precision := settings.precision
    controller := .new (.new [] settings.speed settings.speedDivisor settings.rapidFactor) scheduler
    view := .fitted .default settings.width settings.height settings.padding settings.fitMargin
    text := []
    program := .empty
    drawingDiagnostics := [] }

def engine (s : Session σ) : Engine Float := s.controller.engine

def lift {β : Type} (s : Session σ) (o : Outcome Float (Controller Float σ) β) : Outcome Float (Session σ) β :=
  o.within fun controller => { s with controller }

def emit (s : Session σ) : Except Fault (List Char) := Gcode.emit s.precision s.program.moves

/-- A length that is not given stays as it is. -/
def setDisplaySize (s : Session σ) (width height : Option Float) : Session σ :=
  { s with view := s.view.refit s.program.envelope (width.getD s.view.width) (height.getD s.view.height) }

def setSpeed (s : Session σ) (speed : Int) : Session σ := { s with controller := s.controller.setSpeed speed }

/-- Compiles a drawing's text without loading the program it gives. -/
def convertDrawing (s : Session σ) (text : List Char) : Outcome Float (Session σ) (List Char) :=
  let reading := Drawing.readDxf text
  let (log, program) := s.compiler.run reading.entities
  ⟨{ s with drawingDiagnostics := reading.diagnostics }, [], reading.log ++ log, program⟩

variable [TickScheduler σ]

def process (s : Session σ) (text : List Char) : Outcome Float (Session σ) Unit :=
  let program := Gcode.Program.parse text
  let s := { s with text, program, view := s.view.refit program.envelope s.view.width s.view.height }
  .after [program.readEntry] (s.lift (s.controller.load program.moves))

def processDrawing (s : Session σ) (text : List Char) : Outcome Float (Session σ) Unit :=
  (s.convertDrawing text).andThen fun s program => s.process program

/-- Back to the beginning, the view and the speed apart. -/
def reset (s : Session σ) : Outcome Float (Session σ) Unit :=
  let s := { s with text := [], program := .empty, drawingDiagnostics := [] }
  s.lift (s.controller.load [])

def start (s : Session σ) : Outcome Float (Session σ) Bool := s.lift s.controller.start

def pause (s : Session σ) : Outcome Float (Session σ) Bool := s.lift s.controller.pause

def togglePause (s : Session σ) : Outcome Float (Session σ) Bool := s.lift s.controller.togglePause

def resetPlayback (s : Session σ) : Outcome Float (Session σ) Unit := s.lift s.controller.reset

def isDrawingPath (path : List Char) : Bool := Text.lowerAscii (Path.suffix path) == ".dxf".toList

def pathNote (word : String) (path : List Char) : Log.Entry :=
  Log.info logSource (word ++ String.ofList (Path.normal path))

/-- Reads and processes a file, by its ending as a drawing or as a program. -/
def loadFile (s : Session σ) (store : FileStore) (path : List Char) : Outcome Float (Session σ) Unit :=
  if isDrawingPath path then
    match store.readTextReplacing? path with
    | .ok text => .after [pathNote "Loaded DXF file " path] (s.processDrawing text)
    | .error fault => .failed s fault
  else
    match store.readText? path with
    | .ok text => .after [pathNote "Loaded G-code file " path] (s.process text)
    | .error fault => .failed s fault

/-- Where a program is written when a path is asked for. -/
def savePath (path : List Char) : List Char := Path.withName path (Gcode.normalFilename (Path.name path))

/-- Writes a text, the one processed last unless another is given, and answers the path that it is at. A path
without a name has no file to write. -/
def saveFile (s : Session σ) (store : FileStore) (path : List Char) (text : Option (List Char)) :
    FileStore × Outcome Float (Session σ) (List Char) :=
  if Path.name path = [] then (store, .failed s .unusablePath)
  else
    let place := savePath path
    match store.writeText place (text.getD s.text) with
    | .ok store => (store, .noted s [pathNote "Saved " place] place)
    | .error fault => (store, .failed s fault)

end Session

end Toolpath
