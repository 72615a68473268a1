import Toolpath.Decimal.Notation
import Toolpath.Gcode.Program
import Toolpath.Playback.State

/-! The texts shown beside a path: what the program consists of, where the tool is, and what was reported. -/
namespace Toolpath.Summary
open Gcode

def number (places : Nat) (x : Float) : String := String.ofList (Decimal.fixed places x)

def extent (name : String) (low high : Float) : String := name ++ ": " ++ number 1 low ++ " - " ++ number 1 high

def programLines (p : Program) : List String :=
  let stats := p.statistics
  let box := p.envelope
  ["Statistics:",
    "Lines: " ++ toString p.totalLines,
    "G0 Moves: " ++ toString stats.rapidCount,
    "G1 Moves: " ++ toString stats.linearCount,
    "Warnings: " ++ toString p.diagnostics.length,
    "",
    "Bounding Box:",
    extent "X" box.minX box.maxX,
    extent "Y" box.minY box.maxY,
    "Width: " ++ number 1 box.width ++ " mm",
    "Height: " ++ number 1 box.height ++ " mm",
    "",
    "Toolpath:",
    "Total Length: " ++ number 2 stats.totalLength,
    "Cut Length: " ++ number 2 stats.linearLength,
    "Rapid Length: " ++ number 2 stats.rapidLength]

def toolLines (s : PlaybackState Float) : List String :=
  ["Tool:",
    "X: " ++ number 3 s.x,
    "Y: " ++ number 3 s.y,
    "Feed Rate: " ++ String.ofList (Decimal.general 6 s.feed),
    "Current Line: " ++ toString s.line]

def joined (lines : List String) : String := "\n".intercalate lines

def nothing : String := joined ["Statistics:", "Nothing loaded"]

def ofProgram (p : Program) : String := joined (programLines p)

/-- A summary with the tool under it. -/
def withTool (summary : String) (s : PlaybackState Float) : String := joined (summary :: "" :: toolLines s)

def severityWord : Severity → String
  | .warning => "WARNING"
  | .error => "ERROR"

def warningLine (d : Diagnostic) : String :=
  "Line " ++ toString d.line ++ ": [" ++ severityWord d.severity ++ "] " ++ d.message

def warnings (ds : List Diagnostic) : String := if ds.isEmpty then "No warnings." else joined (ds.map warningLine)

def pointer (x y : Float) : String := "X: " ++ number 2 x ++ " Y: " ++ number 2 y

end Toolpath.Summary
