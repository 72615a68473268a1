import Toolpath.Json.Printer
import Toolpath.Log.Entry
import Toolpath.Log.Message
import Toolpath.Log.Moment
import Toolpath.Text.Quoted

/-! Log records as text: a line for people, or an object for programs. The placeholders of a message count only
if there are any arguments. -/
namespace Toolpath.Log

/-- What went wrong, by the name of its class and its own text. -/
structure Trouble where
  className : List Char
  text : List Char

structure Record where
  source : List Char
  level : Int
  message : List Char
  arguments : List Json
  created : Float
  trouble : Option Trouble

inductive Style where
  | people
  | programs
  deriving DecidableEq

/-- Any style but the one for programs is the one for people. -/
def Style.ofName (name : List Char) : Style := if name = "json".toList then .programs else .people

def levelName (level : Int) : List Char :=
  if level = criticalLevel then "CRITICAL".toList
  else if level = errorLevel then "ERROR".toList
  else if level = warningLevel then "WARNING".toList
  else if level = infoLevel then "INFO".toList
  else if level = debugLevel then "DEBUG".toList
  else if level = 0 then "NOTSET".toList
  else "Level ".toList ++ Decimal.integer level

namespace Record

def text (r : Record) : Except Fault (List Char) :=
  if r.arguments.isEmpty then .ok r.message else fillIn r.message r.arguments

end Record

/-- The text of a missing key is a quoted one. -/
def Trouble.line (t : Trouble) : List Char :=
  let text := if t.className = "KeyError".toList then Text.quoted t.text else t.text
  if text = [] then t.className else t.className ++ ": ".toList ++ text

namespace Record

def forPeople (r : Record) (moment text : List Char) : List Char :=
  let bar := " | ".toList
  moment ++ bar ++ levelName r.level ++ bar ++ r.source ++ bar ++ text ++
    match r.trouble with
    | some t => '\n' :: t.line
    | none => []

def forPrograms (r : Record) (moment text : List Char) : List Char :=
  let fields := [
    (Json.key "t", Json.ofChars moment),
    (Json.key "lvl", Json.ofChars (levelName r.level)),
    (Json.key "name", Json.ofChars r.source),
    (Json.key "msg", Json.ofChars text)]
  let more := r.trouble.toList.map fun t => (Json.key "exc", Json.ofChars t.line)
  (Json.object (fields ++ more)).inLine

def format (r : Record) (style : Style) : Except Fault (List Char) := do
  let moment ← Moment.ofSeconds r.created
  let moment ← moment.text
  let text ← r.text
  return match style with
    | .people => r.forPeople moment text
    | .programs => r.forPrograms moment text

end Record

end Toolpath.Log
