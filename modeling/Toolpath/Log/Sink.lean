import Toolpath.Files
import Toolpath.Log.Format

/-! Where log records go: to the console and, if one is named, to a file, from a least level on. Setting up
anew replaces what was set up before; files are continued. -/
namespace Toolpath.Log

inductive Threshold where
  | number (n : Int)
  | truth (b : Bool)

def Threshold.value : Threshold → Int
  | .number n => n
  | .truth b => if b then 1 else 0

def levelOfName? (name : List Char) : Option Int :=
  if name = "CRITICAL".toList ∨ name = "FATAL".toList then some criticalLevel
  else if name = "ERROR".toList then some errorLevel
  else if name = "WARNING".toList ∨ name = "WARN".toList then some warningLevel
  else if name = "INFO".toList then some infoLevel
  else if name = "DEBUG".toList then some debugLevel
  else if name = "NOTSET".toList then some 0
  else none

/-- A threshold by its name in any letter case, or by its number. -/
def threshold? (level : Json) : Except Fault Threshold :=
  match level with
  | .text points => match levelOfName? (Text.upper (Text.ofPoints points)) with
    | some n => .ok (.number n)
    | none => .error .unknownLogLevel
  | .int n => .ok (.number n)
  | .bool b => .ok (.truth b)
  | .null | .real _ | .array _ | .object _ => .error .unsuitableValue

structure Handler where
  style : Style
  file : Option (List Char)

structure Sink where
  threshold : Threshold
  handlers : List Handler
  store : FileStore
  console : List Char

namespace Sink

/-- Before anything is set up only warnings and worse are let through, and nothing is written. -/
def initial (store : FileStore) : Sink := ⟨.number warningLevel, [], store, []⟩

def style? (mode : Json) : Except Fault Style :=
  match mode with
  | .text points =>
    let name := Text.ofPoints points
    if name = "human".toList then .ok .people
    else if name = "json".toList then .ok .programs
    else .error (.unknownLogMode (String.ofList mode.quoted))
  | _ => .error (.unknownLogMode (String.ofList mode.quoted))

/-- Appends to a file in the store, which is begun if need be. -/
def append (store : FileStore) (path text : List Char) : Except Fault FileStore :=
  let before := (store.read? path).toOption.getD []
  store.write path (before ++ Text.encode text)

/-- A file to write to, with its folders, and the place where it is. -/
def openFile (store : FileStore) (path : List Char) : Except Fault (FileStore × List Char) := do
  let store ← store.makeFolders (Path.folder path)
  let store ← append store path []
  return (store, ← store.locateFile path)

/-- The sink with a console and, if one is named, a file to write to. -/
def install (s : Sink) (style : Style) (file : Option (List Char)) : Except Fault Sink :=
  match file with
  | none => .ok { s with handlers := [⟨style, none⟩] }
  | some path => do
    let (store, place) ← openFile s.store path
    return { s with handlers := [⟨style, none⟩, ⟨style, some place⟩], store }

/-- An unknown style changes nothing. A file that cannot be opened leaves no handlers, and an unknown level is
found only after the handlers were replaced. -/
def setup (s : Sink) (level mode : Json) (file : Option (List Char)) : Sink × Except Fault Unit :=
  match style? mode with
  | .error fault => (s, .error fault)
  | .ok style =>
    match s.install style file with
    | .error fault => ({ s with handlers := [] }, .error fault)
    | .ok s =>
      match threshold? level with
      | .ok threshold => ({ s with threshold }, .ok ())
      | .error fault => (s, .error fault)

/-- Levels up to zero are never let through. -/
def admits (s : Sink) (level : Int) : Bool := 0 < level && s.threshold.value ≤ level

def writeTo (s : Sink) (h : Handler) (r : Record) : Sink :=
  match r.format h.style with
  | .error _ => s
  | .ok text =>
    let line := text ++ ['\n']
    match h.file with
    | none => { s with console := s.console ++ line }
    | some path => { s with store := (append s.store path line).toOption.getD s.store }

/-- Hands a record to every handler if its level is let through, and answers whether it is. -/
def log (s : Sink) (r : Record) : Sink × Bool :=
  if s.admits r.level then (s.handlers.foldl (fun s h => s.writeTo h r) s, true) else (s, false)

def Record.ofEntry (e : Entry) (created : Float) : Record :=
  ⟨e.source.toList, e.level, e.message.toList, [], created, none⟩

def logAll (s : Sink) (created : Float) (entries : List Entry) : Sink :=
  entries.foldl (fun s e => (s.log (Record.ofEntry e created)).1) s

end Sink

end Toolpath.Log
