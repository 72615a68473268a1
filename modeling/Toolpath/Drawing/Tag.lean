import Toolpath.Decimal.Digits
import Toolpath.Decimal.Reading
import Toolpath.Diagnostic
import Toolpath.Text.Lines

/-! The tags of a DXF text: pairs of a line with a group code and a line with its value. A line that should
hold a code and does not is reported, and the pairing starts again from the next line. -/
namespace Toolpath.Drawing

/-- The line is the value's. -/
structure Tag where
  code : Int
  value : List Char
  line : Int
  deriving DecidableEq

namespace Tag

def codeMessage (text : List Char) : String := "Expected a group code, got '" ++ String.ofList text ++ "'"

def valueMessage (code : Int) : String :=
  "Group code " ++ String.ofList (Decimal.integer code) ++ " has no value"

/-- Pairs up trimmed lines numbered from `line` on. -/
def pair (line : Int) : List (List Char) → List Tag × List Diagnostic
  | [] => ([], [])
  | [] :: rest => pair (line + 1) rest
  | text :: rest =>
    match Decimal.int? text with
    | none =>
      let (tags, reports) := pair (line + 1) rest
      (tags, .ofLine line (codeMessage text) .format :: reports)
    | some code =>
      match rest with
      | [] => ([], [.ofLine line (valueMessage code) .format])
      | value :: rest =>
        let (tags, reports) := pair (line + 2) rest
        (⟨code, value, line + 1⟩ :: tags, reports)

def ofText (text : List Char) : List Tag × List Diagnostic :=
  pair 1 ((Text.splitLines text).map Text.trim)

end Tag

end Toolpath.Drawing
