import Toolpath.Config.Resolve
import Toolpath.FrontEnd.Editor
import Toolpath.FrontEnd.Summary
import Toolpath.FrontEnd.Trouble
import Toolpath.FrontEnd.Viewport
import Toolpath.Session.Sample

/-! The main window: an editor, the picture of the path, buttons and labels for the run, and files. Everything
shown is a value of its own, which changes when the run announces a state, when a text is processed, or when a
control is used. Typed text is processed when the typing has paused, or before a run is started. -/
namespace Toolpath

abbrev TimerSession := Session (TimerScheduler Nat)

/-- What the toolbar shows of a run; the progress is a percentage. -/
structure RunDisplay where
  status : String
  progress : Int
  canPause : Bool
  pauseText : String
  deriving DecidableEq

def RunDisplay.ofState (state : PlaybackState Float) (total : Nat) : RunDisplay :=
  { status := state.status.label
    progress := ((state.progress total).bind fun fraction => Binary64.nearestWhole (fraction * 100)).toOption.getD 0
    canPause := state.isRunning || state.isPaused
    pauseText := if state.isPaused then "Resume" else "Pause" }

structure Window where
  session : TimerSession
  name : Json
  editor : Editor
  viewport : Viewport
  run : RunDisplay
  speedText : String
  /-- What the program consists of; the statistics show it with the tool under it. -/
  summary : String
  statistics : String
  warnings : String
  filename : List Char
  pointer : String
  /-- Whether typed text waits to be processed. -/
  typing : Bool

structure FileDialog where
  title : String
  start : List Char
  filters : String

structure MessageBox where
  title : String
  text : String

/-- What an operation on a window comes to: the window afterwards, lines for its console, what it asked and
showed, the notes made, and the answer or the fault that ended it. -/
structure WindowReply (β : Type) where
  window : Window
  console : List String
  asked : List FileDialog
  shown : List MessageBox
  log : List Log.Entry
  result : Except Fault β

namespace WindowReply
variable {β γ : Type}

def quiet (window : Window) (answer : β) : WindowReply β := ⟨window, [], [], [], [], .ok answer⟩

/-- Only a line for the console. -/
def said (window : Window) (line : String) (answer : β) : WindowReply β := ⟨window, [line], [], [], [], .ok answer⟩

def andThen (r : WindowReply β) (next : Window → β → WindowReply γ) : WindowReply γ :=
  match r.result with
  | .error fault => ⟨r.window, r.console, r.asked, r.shown, r.log, .error fault⟩
  | .ok answer =>
    let s := next r.window answer
    ⟨s.window, r.console ++ s.console, r.asked ++ s.asked, r.shown ++ s.shown, r.log ++ s.log, s.result⟩

end WindowReply

namespace Window

def title : String := "G-Code Toolpath Simulator"

def logSource : String := "gui.main_window"

def engine (w : Window) : Engine Float := w.session.engine

def percentText (n : Int) : String := toString n ++ "%"

def pendingTicks (w : Window) : Nat := w.session.controller.scheduler.pending

/-- Takes in a state that the run announces. -/
def notice (w : Window) (state : PlaybackState Float) : Window :=
  { w with
    viewport := w.viewport.showPlayback state
    editor := (w.editor.setExecutionLine state.line).1
    run := .ofState state w.engine.moves.length
    statistics := Summary.withTool w.summary state }

/-- Takes in what an operation on the session comes to. -/
def follow {β : Type} (w : Window) (o : Outcome Float TimerSession β) : WindowReply β :=
  ⟨o.announced.foldl notice { w with session := o.state }, [], [], [], o.log, o.result⟩

def showProgram (w : Window) (program : Gcode.Program) : Window :=
  let summary := Summary.ofProgram program
  { w with
    viewport := w.viewport.showPath program.moves program.envelope
    editor := w.editor.setErrorLines (program.diagnostics.map (·.line))
    warnings := Summary.warnings program.diagnostics
    summary
    statistics := Summary.withTool summary w.engine.state }

def process (w : Window) : WindowReply Unit :=
  (w.follow (w.session.process w.editor.text)).andThen fun w _ => .quiet (w.showProgram w.session.program) ()

def setText (w : Window) (text : List Char) : WindowReply Unit :=
  { w with editor := w.editor.setText text, typing := false }.process

/-- A window for a configuration, with the sample program in it. -/
def newWith (kit : TextKit) (config : SimulatorConfig) (width height : Float) :
    Except Fault (WindowReply Unit) := do
  let settings ← config.session
  let spacing := (Setting.measure config.gridSpacing).toOption.getD 0
  let majorEvery := (Setting.measure config.gridMajorEvery).toOption.getD 0
  let session : TimerSession := .new settings .empty
  let w : Window := {
    session
    name := config.name
    editor := .ofTextWith kit []
    viewport := .new width height settings.padding settings.fitMargin spacing majorEvery
    run := .ofState .initial 0
    speedText := percentText session.engine.speed
    summary := Summary.nothing
    statistics := Summary.nothing
    warnings := ""
    filename := Gcode.defaultFilename.toList
    pointer := Summary.pointer 0 0
    typing := false }
  return w.setText Session.sample

def new (config : SimulatorConfig) (width height : Float) : Except Fault (WindowReply Unit) :=
  newWith .plain config width height

def type (w : Window) (text : List Char) : Window := { w with editor := w.editor.setText text, typing := true }

/-- Processes text that waits. -/
def finishTyping (w : Window) : WindowReply Unit :=
  if w.typing then { w with typing := false }.process else .quiet w ()

def start (w : Window) : WindowReply Unit :=
  (w.finishTyping.andThen fun w _ => w.follow w.session.start).andThen fun w started =>
    if started then .quiet w () else .said w "Nothing to simulate" ()

def togglePause (w : Window) : WindowReply Bool := w.follow w.session.togglePause

def resetPlayback (w : Window) : WindowReply Unit := w.follow w.session.resetPlayback

def setSpeed (w : Window) (speed : Int) : Window :=
  let session := w.session.setSpeed speed
  { w with session, speedText := percentText session.engine.speed }

def close (w : Window) : WindowReply Bool := w.follow w.session.pause

def fireTimers (w : Window) : List Nat → WindowReply Unit
  | [] => .quiet w ()
  | handle :: rest =>
    (w.follow (w.session.lift (w.session.controller.expire handle))).andThen fun w _ => w.fireTimers rest

def tick (w : Window) : WindowReply Unit := w.fireTimers w.session.controller.scheduler.held

/-- The times of `count` rounds of ticks come, one after the other. -/
def ticks (w : Window) : Nat → WindowReply Unit
  | 0 => .quiet w ()
  | count + 1 => w.tick.andThen fun w _ => w.ticks count

def movePointer (w : Window) (x y : Float) : Window := { w with pointer := Summary.pointer x y }

def select (w : Window) (start stop : Nat) : Window × List Int :=
  let (editor, lines) := w.editor.changeSelection start stop
  ({ w with editor, viewport := w.viewport.highlight lines }, lines)

/-- Shows and notes why a file cannot be used. What is no matter of files stays a fault. -/
def fileTrouble (w : Window) (store : FileStore) (action : String) (path place : List Char) (fault : Fault) :
    WindowReply Unit :=
  match troubleText? store place fault with
  | none => ⟨w, [], [], [], [], .error fault⟩
  | some cause =>
    let what := "Could not " ++ action ++ " " ++ String.ofList path ++ ":"
    ⟨w, [], [], [⟨"File Error", what ++ "\n" ++ cause⟩], [Log.error logSource (what ++ " " ++ cause)], .ok ()⟩

def openProgram (w : Window) (store : FileStore) (path : List Char) : WindowReply Unit :=
  match store.readText? path with
  | .error fault => w.fileTrouble store "open" path path fault
  | .ok text =>
    ({ w with filename := Path.name path }.setText text).andThen fun w _ =>
      .said w ("Loaded: " ++ String.ofList path) ()

def drawingLine (d : Diagnostic) : String := "DXF line " ++ toString d.line ++ ": " ++ d.message

def openDrawing (w : Window) (store : FileStore) (path : List Char) : WindowReply Unit :=
  match store.readTextReplacing? path with
  | .error fault => w.fileTrouble store "open" path path fault
  | .ok text =>
    (w.follow (w.session.convertDrawing text)).andThen fun w program =>
      let lines := w.session.drawingDiagnostics.map drawingLine
      let w := { w with filename := Gcode.filenameForDrawing (Path.name path) }
      let spoken : WindowReply Unit := ⟨w, lines, [], [], [], .ok ()⟩
      (spoken.andThen fun w _ => w.setText program).andThen fun w _ =>
        .said w ("Converted DXF: " ++ String.ofList path) ()

/-- Opens a file, by its ending as a drawing or as a program. -/
def openPath (w : Window) (store : FileStore) (path : List Char) : WindowReply Unit :=
  if Session.isDrawingPath path then w.openDrawing store path else w.openProgram store path

def programFilters : String := "G-Code Files (*.gcode *.nc *.ngc *.txt);;All Files (*)"
def drawingFilters : String := "DXF Files (*.dxf);;All Files (*)"

/-- Asks for a file and goes on unless none was chosen. -/
def ask (w : Window) (dialog : FileDialog) (path : Option (List Char))
    (next : Window → List Char → WindowReply Unit) : WindowReply Unit :=
  let asking : WindowReply Unit := ⟨w, [], [dialog], [], [], .ok ()⟩
  match path with
  | some path => asking.andThen fun w _ => next w path
  | none => asking

def chooseProgram (w : Window) (store : FileStore) (path : Option (List Char)) : WindowReply Unit :=
  w.ask ⟨"Open G-Code File", [], programFilters⟩ path fun w path => w.openProgram store path

def chooseDrawing (w : Window) (store : FileStore) (path : Option (List Char)) : WindowReply Unit :=
  w.ask ⟨"Open DXF File", [], drawingFilters⟩ path fun w path => w.openDrawing store path

/-- Writes the text of the editor to the file chosen, and takes over its name. -/
def chooseSave (w : Window) (store : FileStore) (path : Option (List Char)) : FileStore × WindowReply Unit :=
  let dialog : FileDialog := ⟨"Save G-Code File", w.filename, programFilters⟩
  match path with
  | none => (store, w.ask dialog none fun w _ => .quiet w ())
  | some path =>
    let (store, saved) := w.session.saveFile store path (some w.editor.text)
    (store, w.ask dialog (some path) fun w path =>
      match saved.result with
      | .error fault => w.fileTrouble store "save" path (Session.savePath path) fault
      | .ok place =>
        (w.follow saved).andThen fun w _ =>
          .said { w with filename := Path.name place } ("Saved: " ++ String.ofList place) ())

def rename (w : Window) (filename : List Char) : Window := { w with filename }

end Window

end Toolpath
