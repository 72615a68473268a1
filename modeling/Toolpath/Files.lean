import Toolpath.Fault
import Toolpath.Text.Blank
import Toolpath.Text.Upper
import Toolpath.Text.Utf8

/-! Paths, and a store of files in folders. A file can be written where its folder exists and no folder has its
place. Texts are stored in UTF-8 as they are; when they are read, every kind of line end becomes a line feed. -/
namespace Toolpath

namespace Path

def splitSlashes : List Char → List (List Char)
  | [] => [[]]
  | c :: rest =>
    match splitSlashes rest with
    | [] => [[c]]
    | part :: parts => if c = '/' then [] :: part :: parts else (c :: part) :: parts

/-- The parts of a path that name something. -/
def parts (path : List Char) : List (List Char) :=
  (splitSlashes path).filter fun part => part != [] && part != ['.']

def isAbsolute (path : List Char) : Bool := path.head? == some '/'

def ofParts (absolute : Bool) (parts : List (List Char)) : List Char :=
  let joined := ['/'].intercalate parts
  if absolute then '/' :: joined else if parts = [] then ['.'] else joined

/-- A path without empty parts and without those that stay in place. -/
def normal (path : List Char) : List Char := ofParts (isAbsolute path) (parts path)

def name (path : List Char) : List Char := (parts path).getLastD []

def folder (path : List Char) : List Char := ofParts (isAbsolute path) (parts path).dropLast

def withName (path name : List Char) : List Char :=
  ofParts (isAbsolute path) ((parts path).dropLast ++ [name])

/-- The ending of the name from its last point on; a name that begins or ends with that point has none. -/
def suffix (path : List Char) : List Char :=
  let whole := name path
  let ending := (whole.reverse.takeWhile (· != '.')).reverse
  let before := whole.length - ending.length
  if ending = [] ∨ before ≤ 1 then [] else '.' :: ending

def within (folder path : List Char) : List Char :=
  if isAbsolute path then path else folder ++ '/' :: path

end Path

structure FileStore where
  folders : List (List Char)
  files : List (List Char × List UInt8)

namespace FileStore

def empty (root : List Char) : FileStore := ⟨[Path.normal root], []⟩

/-- The folders that paths start from are always there. -/
def hasFolder (store : FileStore) (place : List Char) : Bool :=
  place = ['.'] || place = ['/'] || store.folders.contains place

def hasFile (store : FileStore) (place : List Char) : Bool := store.files.any (·.1 == place)

/-- The parts passed after one more; two points lead back to the folder above. -/
def proceed (passed : List (List Char)) (part : List Char) : List (List Char) :=
  if part = ['.', '.'] then passed.dropLast else passed ++ [part]

/-- A name has at most 255 bytes. -/
def isTooLong (part : List Char) : Bool := 255 < (Text.encode part).length

/-- Follows parts from folder to folder; only the last one may lead to something else. -/
def follow (store : FileStore) (path : List Char) (passed : List (List Char)) :
    List (List Char) → Except Fault (List (List Char))
  | [] => .ok passed
  | part :: rest =>
    let here := Path.ofParts (Path.isAbsolute path) passed
    if store.hasFolder here then
      if isTooLong part then .error .nameTooLong else follow store path (proceed passed part) rest
    else if store.hasFile here then .error .notFolder
    else .error (.missingFile (String.ofList path))

/-- The place that a path leads to, in its only form; nothing has to be there. -/
def locate (store : FileStore) (path : List Char) : Except Fault (List Char) :=
  if path.contains '\x00' then .error .unusablePath
  else (store.follow path [] (Path.parts path)).map (Path.ofParts (Path.isAbsolute path))

/-- The place of a file that may be there already. -/
def locateFile (store : FileStore) (path : List Char) : Except Fault (List Char) := do
  let place ← store.locate path
  if store.hasFolder place then throw .isFolder else return place

def read? (store : FileStore) (path : List Char) : Except Fault (List UInt8) := do
  let place ← store.locateFile path
  match store.files.lookup place with
  | some bytes => return bytes
  | none => throw (.missingFile (String.ofList path))

def put (files : List (List Char × List UInt8)) (place : List Char) (bytes : List UInt8) :
    List (List Char × List UInt8) :=
  match files with
  | [] => [(place, bytes)]
  | (other, old) :: rest => if other = place then (place, bytes) :: rest else (other, old) :: put rest place bytes

def write (store : FileStore) (path : List Char) (bytes : List UInt8) : Except Fault FileStore := do
  let place ← store.locateFile path
  return { store with files := put store.files place bytes }

/-- Makes the folders of a path one after the other where they are missing. -/
def makeFrom (store : FileStore) (absolute : Bool) (passed : List (List Char)) :
    List (List Char) → Except Fault FileStore
  | [] => .ok store
  | part :: rest =>
    let passed := proceed passed part
    let here := Path.ofParts absolute passed
    if store.hasFolder here then makeFrom store absolute passed rest
    else if store.hasFile here then .error (if rest = [] then .fileInTheWay else .notFolder)
    else if isTooLong part then .error .nameTooLong
    else makeFrom { store with folders := store.folders ++ [here] } absolute passed rest

def makeFolders (store : FileStore) (path : List Char) : Except Fault FileStore :=
  if path.contains '\x00' then .error .unusablePath
  else store.makeFrom (Path.isAbsolute path) [] (Path.parts path)

/-- A text that must be well encoded. -/
def readText? (store : FileStore) (path : List Char) : Except Fault (List Char) := do
  let bytes ← store.read? path
  match Text.decode? bytes with
  | some cs => return Text.unifyNewlines cs
  | none => throw .malformedUtf8

/-- A text whose faults of encoding are replaced. -/
def readTextReplacing? (store : FileStore) (path : List Char) : Except Fault (List Char) := do
  let bytes ← store.read? path
  return Text.unifyNewlines (Text.decodeReplacing bytes)

def writeText (store : FileStore) (path text : List Char) : Except Fault FileStore :=
  store.write path (Text.encode text)

end FileStore

end Toolpath
