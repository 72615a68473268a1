import Toolpath.Files
import Toolpath.Json.Printer
import Toolpath.Json.Reader
import Toolpath.Log.Entry

/-! Configurations as they are stored: a value for each setting, of whatever kind it was written with. Reading a
stored configuration either takes every field as it is or, if anything is not in order, gives the default. -/
namespace Toolpath

structure CompilerSettings where
  feedRate : Json
  safeZ : Json
  cutZ : Json
  circleSegments : Json
  arcSegments : Json
  precision : Json

structure SimulatorConfig where
  name : Json
  speed : Json
  speedDivisor : Json
  rapidFactor : Json
  tickInterval : Json
  displayWidth : Json
  displayHeight : Json
  padding : Json
  fitMargin : Json
  gridSpacing : Json
  gridMajorEvery : Json
  compiler : CompilerSettings

namespace CompilerSettings

def default : CompilerSettings :=
  { feedRate := .real 400
    safeZ := .real 5
    cutZ := .real (-1)
    circleSegments := .int 36
    arcSegments := .int 18
    precision := .int 3 }

def toJson (c : CompilerSettings) : Json :=
  .object [
    (Json.key "feed_rate", c.feedRate),
    (Json.key "safe_z", c.safeZ),
    (Json.key "cut_z", c.cutZ),
    (Json.key "circle_segments", c.circleSegments),
    (Json.key "arc_segments", c.arcSegments),
    (Json.key "precision", c.precision)]

def set? (c : CompilerSettings) (name : List UInt16) (value : Json) : Option CompilerSettings :=
  if name = Json.key "feed_rate" then some { c with feedRate := value }
  else if name = Json.key "safe_z" then some { c with safeZ := value }
  else if name = Json.key "cut_z" then some { c with cutZ := value }
  else if name = Json.key "circle_segments" then some { c with circleSegments := value }
  else if name = Json.key "arc_segments" then some { c with arcSegments := value }
  else if name = Json.key "precision" then some { c with precision := value }
  else none

def setAll? (c : CompilerSettings) : List (List UInt16 × Json) → Option CompilerSettings
  | [] => some c
  | (name, value) :: rest => (c.set? name value).bind fun c => c.setAll? rest

def ofJson? : Json → Option CompilerSettings
  | .object fields => default.setAll? fields
  | _ => none

end CompilerSettings

namespace SimulatorConfig

def default : SimulatorConfig :=
  { name := .ofString "Default"
    speed := .int 50
    speedDivisor := .real 25
    rapidFactor := .real 3
    tickInterval := .int 16
    displayWidth := .int 800
    displayHeight := .int 600
    padding := .real 60
    fitMargin := .real 0.9
    gridSpacing := .real 10
    gridMajorEvery := .real 50
    compiler := .default }

/-- At full speed, for checking a long program quickly. -/
def preview : SimulatorConfig := { default with name := .ofString "Preview", speed := .int 100 }

def toJson (c : SimulatorConfig) : Json :=
  .object [
    (Json.key "name", c.name),
    (Json.key "speed", c.speed),
    (Json.key "speed_divisor", c.speedDivisor),
    (Json.key "rapid_factor", c.rapidFactor),
    (Json.key "tick_interval_ms", c.tickInterval),
    (Json.key "display_width", c.displayWidth),
    (Json.key "display_height", c.displayHeight),
    (Json.key "padding", c.padding),
    (Json.key "fit_margin", c.fitMargin),
    (Json.key "grid_spacing", c.gridSpacing),
    (Json.key "grid_major_every", c.gridMajorEvery),
    (Json.key "compiler", c.compiler.toJson)]

def set? (c : SimulatorConfig) (name : List UInt16) (value : Json) : Option SimulatorConfig :=
  if name = Json.key "name" then some { c with name := value }
  else if name = Json.key "speed" then some { c with speed := value }
  else if name = Json.key "speed_divisor" then some { c with speedDivisor := value }
  else if name = Json.key "rapid_factor" then some { c with rapidFactor := value }
  else if name = Json.key "tick_interval_ms" then some { c with tickInterval := value }
  else if name = Json.key "display_width" then some { c with displayWidth := value }
  else if name = Json.key "display_height" then some { c with displayHeight := value }
  else if name = Json.key "padding" then some { c with padding := value }
  else if name = Json.key "fit_margin" then some { c with fitMargin := value }
  else if name = Json.key "grid_spacing" then some { c with gridSpacing := value }
  else if name = Json.key "grid_major_every" then some { c with gridMajorEvery := value }
  else if name = Json.key "compiler" then
    (CompilerSettings.ofJson? value).map fun compiler => { c with compiler }
  else none

def setAll? (c : SimulatorConfig) : List (List UInt16 × Json) → Option SimulatorConfig
  | [] => some c
  | (name, value) :: rest => (c.set? name value).bind fun c => c.setAll? rest

/-- A configuration with the fields of an object, none if a field is unknown. -/
def ofJson? : Json → Option SimulatorConfig
  | .object fields => default.setAll? fields
  | _ => none

def stored (c : SimulatorConfig) : List Char := c.toJson.inBlock

/-- How deep the values of a configuration may nest to be stored, which is less than what can be read. -/
def storableDepth : Nat := 495

/-- The text to store. Nothing that could not be read again as a number is written. -/
def save (c : SimulatorConfig) : Except Fault (List Char) :=
  if storableDepth < c.toJson.depth then .error .tooDeep
  else if Decimal.maxIntegerDigits < c.toJson.integerDigits then .error .overlongInteger
  else .ok c.stored

/-- What a file holds once a configuration was stored in it, or once that failed: the file is emptied before the
depth is looked at, and written until an integer is too long. -/
def written (c : SimulatorConfig) : List Char :=
  if storableDepth < c.toJson.depth then [] else c.toJson.writtenPart

def ofText (text : List Char) : Except Fault SimulatorConfig := do
  match ofJson? (← Json.read text) with
  | some c => return c
  | none => throw .unsuitableValue

def logSource : String := "config.simulator_config"

/-- One wording stands for every cause, of which the note would give its own. -/
def fallbackNote (path : List Char) : Log.Entry :=
  Log.warning logSource ("Could not load configuration from " ++ String.ofList path ++
    ": not a stored configuration; using default")

/-- The configuration that a file holds, or the default and a note. Only a text that nests too deep is a fault. -/
def load (store : FileStore) (path : List Char) : Except Fault (SimulatorConfig × List Log.Entry) :=
  match (store.readText? path).bind ofText with
  | .ok c => .ok (c, [])
  | .error .tooDeep => .error .tooDeep
  | .error _ => .ok (default, [fallbackNote path])

/-- A file that cannot be opened is left alone; any other is not what it was, also if storing fails. -/
def saveFile (c : SimulatorConfig) (store : FileStore) (path : List Char) : FileStore × Except Fault Unit :=
  match store.writeText path c.written with
  | .ok after => (after, c.save.map fun _ => ())
  | .error fault => (store, .error fault)

/-- A configuration by its name in any letter case; an unknown name gives the default and a note. -/
def preset (name : List Char) : SimulatorConfig × List Log.Entry :=
  let lower := Text.lowerAscii name
  if lower = "default".toList then (default, [])
  else if lower = "preview".toList then (preview, [])
  else (default, [Log.warning logSource ("Unknown configuration preset '" ++ String.ofList name ++ "', using default")])

end SimulatorConfig

end Toolpath
