import Std.Time.DateTime.Timestamp
import Toolpath.FrontEnd.Launch

/-! The program: it reads the files that the command line names, starts the simulator with them, and shows what
the window would show. Log lines go to the error stream and, if asked for, to the end of a file. -/

open Toolpath

/-- The seconds since the start of 1970. -/
def currentMoment : IO Float := do
  let now ← Std.Time.Timestamp.now
  return Binary64.ofInt now.toNanosecondsSinceUnixEpoch.val / 1000000000

/-- A store with those of the files that can be read. -/
def loadFiles (paths : List (List Char)) : IO FileStore := do
  let mut store := FileStore.empty ['.']
  for path in paths do
    try
      let bytes ← IO.FS.readBinFile (String.ofList path)
      store := ((store.makeFolders (Path.folder path)).bind (·.write path bytes.toList)).toOption.getD store
    catch _ => pure ()
  return store

/-- Appends the lines logged to the file that they are meant for, with its folders. -/
def appendLog (sink : Log.Sink) (path : List Char) : IO Unit := do
  let bytes := (sink.store.read? path).toOption.getD []
  IO.FS.createDirAll (String.ofList (Path.folder path))
  IO.FS.withFile (String.ofList path) .append fun file => file.write bytes.toByteArray

def showWindow (reply : WindowReply Unit) : IO Unit := do
  let w := reply.window
  IO.println (Window.title ++ " - " ++ w.run.status ++ " - " ++ w.speedText)
  IO.println w.statistics
  IO.println w.warnings
  for line in reply.console do
    IO.println line

def main (texts : List String) : IO UInt32 := do
  let arguments := texts.map String.toList
  let created ← currentMoment
  let named := match CommandLine.read arguments with
    | .run given => given.file.toList ++ (given.config.bind OptionValue.text?).toList
    | .stop _ => []
  let launch := Launch.run (← loadFiles named) created arguments
  IO.eprint (String.ofList launch.sink.console)
  for handler in launch.sink.handlers do
    if let some path := handler.file then appendLog launch.sink path
  for reply in launch.window.toList do
    showWindow reply
  return match launch.exit with
    | .ok code => code.toUInt32
    | .error _ => 1
