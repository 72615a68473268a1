import Toolpath.FrontEnd.CommandLine
import Toolpath.FrontEnd.Window
import Toolpath.Log.Sink

/-! Starting the simulator from its command line: logging is set up first, then a configuration is found, a
window made for it, and the file opened in it. A fault ends the start without a window. -/
namespace Toolpath

structure Launch where
  sink : Log.Sink
  /-- The window, with all that was said and shown on the way. -/
  window : Option (WindowReply Unit)
  /-- An exit code, or why there is none. -/
  exit : Except Fault Nat

namespace Launch

def logSource : String := "main"

def windowWidth : Float := 800
def windowHeight : Float := 600

/-- A configuration from the file named, or else by the name of a preset. -/
def configuration (store : FileStore) (arguments : Arguments) :
    Except Fault (SimulatorConfig × List Log.Entry) :=
  match arguments.config, arguments.preset with
  | some (.text (c :: path)), _ => SimulatorConfig.load store (c :: path)
  | _, .text name => .ok (SimulatorConfig.preset name)
  | _, .nothing => .error .notAText

def startNote (config : SimulatorConfig) : Log.Entry :=
  Log.info logSource ("Starting simulator with configuration '" ++ String.ofList config.name.shown ++ "'")

def openWindow (store : FileStore) (config : SimulatorConfig) (file : Option (List Char)) :
    Except Fault (WindowReply Unit) := do
  let reply ← Window.new config windowWidth windowHeight
  return match file with
    | none | some [] => reply
    | some path => reply.andThen fun w _ => w.openPath store path

/-- Sets the log up. A log file that is nothing at all is a fault like one that cannot be opened. -/
def setUpLog (sink : Log.Sink) (arguments : Arguments) : Log.Sink × Except Fault Unit :=
  let setup := sink.setup arguments.logLevel.toJson (.ofString "human")
  match arguments.logFile with
  | none => setup none
  | some (.text path) => setup (some path)
  | some .nothing => ({ sink with handlers := [] }, .error .unsuitableValue)

/-- Starts with the files of the sink's store; notes are stamped with the moment `created`. -/
def start (sink : Log.Sink) (created : Float) (arguments : Arguments) : Launch :=
  let (sink, ready) := setUpLog sink arguments
  match ready.bind fun _ => configuration sink.store arguments with
  | .error fault => ⟨sink, none, .error fault⟩
  | .ok (config, notes) =>
    let sink := sink.logAll created (notes ++ [startNote config])
    match openWindow sink.store config arguments.file with
    | .error fault => ⟨sink, none, .error fault⟩
    | .ok reply =>
      let sink := sink.logAll created reply.log
      match reply.result with
      | .ok () => ⟨sink, some reply, .ok 0⟩
      | .error fault => ⟨sink, none, .error fault⟩

def run (store : FileStore) (created : Float) (texts : List (List Char)) : Launch :=
  match CommandLine.read texts with
  | .stop code => ⟨.initial store, none, .ok code⟩
  | .run arguments => start (.initial store) created arguments

end Launch

end Toolpath
