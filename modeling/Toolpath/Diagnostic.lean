import Toolpath.Fault

/-! What a reader reports about its input. Reading goes on after every report. -/
namespace Toolpath

inductive DiagnosticKind where
  | wording
  | format
  deriving DecidableEq

def DiagnosticKind.name : DiagnosticKind → String
  | .wording => "syntax"
  | .format => "format"

def DiagnosticKind.ofName (name : String) : Except Fault DiagnosticKind :=
  if name = "syntax" then .ok .wording
  else if name = "format" then .ok .format
  else .error .unknownDiagnosticWord

inductive Severity where
  | warning
  | error
  deriving DecidableEq

def Severity.name : Severity → String
  | .warning => "warning"
  | .error => "error"

def Severity.ofName (name : String) : Except Fault Severity :=
  if name = "warning" then .ok .warning
  else if name = "error" then .ok .error
  else .error .unknownDiagnosticWord

/-- A report about the characters from `start` up to `stop` of a line; a whole line has both zero. -/
structure Diagnostic where
  line : Int
  start : Int
  stop : Int
  message : String
  kind : DiagnosticKind
  severity : Severity
  deriving DecidableEq

namespace Diagnostic

def ofLine (line : Int) (message : String) (kind : DiagnosticKind) : Diagnostic :=
  ⟨line, 0, 0, message, kind, .warning⟩

def text (d : Diagnostic) : String := "Line " ++ toString d.line ++ ": " ++ d.message

/-- By line, then by start. -/
def before (d e : Diagnostic) : Bool := d.line < e.line || (d.line == e.line && d.start ≤ e.start)

/-- Those that compare equal stay in the order of their report. -/
def sorted (ds : List Diagnostic) : List Diagnostic := ds.mergeSort before

def onLine (ds : List Diagnostic) (line : Int) : List Diagnostic := ds.filter (·.line == line)

def hasErrors (ds : List Diagnostic) : Bool := ds.any (·.severity == .error)

def hasWarnings (ds : List Diagnostic) : Bool := ds.any (·.severity == .warning)

end Diagnostic

end Toolpath
