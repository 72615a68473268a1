import Toolpath.Drawing.Entity
import Toolpath.Drawing.Tag
import Toolpath.Numeric.Whole
import Toolpath.Text.Upper

/-! Records: a tag of code 0, which names a kind, and the tags up to the next one. Each kind of entity is built
from its record's tags; a number that does not read and a missing code count as zero and are reported. -/
namespace Toolpath.Drawing

structure Record where
  marker : Tag
  tags : List Tag

namespace Record

def kind (r : Record) : List Char := Text.upper r.marker.value

def isKind (r : Record) (name : String) : Bool := r.kind == name.toList

/-- Groups tags by the markers among them; tags before the first marker belong to none. -/
def group (tags : List Tag) : List Record :=
  (tags.foldr (fun tag (open_, records) =>
    if tag.code = 0 then ([], ⟨tag, open_⟩ :: records) else (tag :: open_, records))
    (([] : List Tag), ([] : List Record))).2

def numberMessage (tag : Tag) : String :=
  "Invalid number '" ++ String.ofList tag.value ++ "' for group code " ++
    String.ofList (Decimal.integer tag.code) ++ "; using 0"

/-- The finite number a tag holds, or zero and a report. -/
def number (tag : Tag) : Float × List Diagnostic :=
  match Decimal.finite? tag.value with
  | some x => (x, [])
  | none => (0, [.ofLine tag.line (numberMessage tag) .format])

def flagsMessage (tag : Tag) : String := "Invalid polyline flags '" ++ String.ofList tag.value ++ "'"

/-- The lowest bit of the flags, which may be written with a fraction. -/
def isClosed (tag : Tag) : Bool × List Diagnostic :=
  match (Decimal.float? tag.value).map Binary64.truncate with
  | some (.ok flags) => (flags % 2 == 1, [])
  | _ => (false, [.ofLine tag.line (flagsMessage tag) .format])

/-- The values of the codes 10 to 59, for each code the first; codes in `seen` have had theirs. -/
def numbers (seen : List Int) : List Tag → List (Int × Float) × List Diagnostic
  | [] => ([], [])
  | tag :: rest =>
    if 10 ≤ tag.code ∧ tag.code ≤ 59 ∧ tag.code ∉ seen then
      let (x, report) := number tag
      let (values, reports) := numbers (tag.code :: seen) rest
      ((tag.code, x) :: values, report ++ reports)
    else numbers seen rest

def valueOf (values : List (Int × Float)) (code : Int) : Float := (values.lookup code).getD 0

def missingMessage (kind : List Char) (missing : List Int) : String :=
  String.ofList kind ++ " is missing group codes " ++
    ", ".intercalate (missing.map fun code => String.ofList (Decimal.integer code)) ++ "; using 0"

def required (r : Record) (codes : List Int) : List (Int × Float) × List Diagnostic :=
  let (values, reports) := numbers [] r.tags
  let missing := codes.filter fun code => !values.any (·.1 == code)
  let report := if missing = [] then [] else [.ofLine r.marker.line (missingMessage r.kind missing) .format]
  (values, reports ++ report)

def line (r : Record) : Entity × List Diagnostic :=
  let (values, reports) := r.required [10, 20, 11, 21]
  let at_ := valueOf values
  (.line (at_ 10) (at_ 20) (at_ 11) (at_ 21), reports)

def circle (r : Record) : Entity × List Diagnostic :=
  let (values, reports) := r.required [10, 20, 40]
  let at_ := valueOf values
  (.circle (at_ 10) (at_ 20) (at_ 40), reports)

def arc (r : Record) : Entity × List Diagnostic :=
  let (values, reports) := r.required [10, 20, 40, 50, 51]
  let at_ := valueOf values
  (.arc (at_ 10) (at_ 20) (at_ 40) (at_ 50) (at_ 51), reports)

/-- The outline so far: its finished vertices, the open one, and the closing flag. -/
structure Outline where
  points : List (Float × Float)
  last : Option (Float × Float)
  closed : Bool

namespace Outline

def empty : Outline := ⟨[], none, false⟩

/-- Code 10 begins a vertex, code 20 gives the open vertex its y and begins one at x zero if none is open. -/
def take (o : Outline) (tag : Tag) : Outline × List Diagnostic :=
  if tag.code = 10 then
    let (x, report) := number tag
    ({ o with points := o.points ++ o.last.toList, last := some (x, 0) }, report)
  else if tag.code = 20 then
    let (y, report) := number tag
    ({ o with last := some ((o.last.map (·.1)).getD 0, y) }, report)
  else if tag.code = 70 then
    let (closed, report) := isClosed tag
    ({ o with closed }, report)
  else (o, [])

def takeAll (o : Outline) : List Tag → Outline × List Diagnostic
  | [] => (o, [])
  | tag :: rest =>
    let (o, report) := o.take tag
    let (o, reports) := o.takeAll rest
    (o, report ++ reports)

end Outline

/-- A polyline whose vertices are inline. -/
def lightPolyline (r : Record) : Entity × List Diagnostic :=
  let (o, reports) := Outline.empty.takeAll r.tags
  (.polyline (o.points ++ o.last.toList) o.closed, reports)

/-- Whether some flags are closing; those after the first closing ones are not looked at. -/
def anyClosed : List Tag → Bool × List Diagnostic
  | [] => (false, [])
  | tag :: rest =>
    if tag.code = 70 then
      match isClosed tag with
      | (true, report) => (true, report)
      | (false, report) =>
        let (closed, reports) := anyClosed rest
        (closed, report ++ reports)
    else anyClosed rest

def vertex (r : Record) : (Float × Float) × List Diagnostic :=
  let (values, reports) := numbers [] r.tags
  ((valueOf values 10, valueOf values 20), reports)

/-- A polyline whose vertices are records of their own; the point of its header is a placeholder. -/
def polyline (r : Record) (vertices : List Record) : Entity × List Diagnostic :=
  let (closed, reports) := anyClosed r.tags
  let corners := vertices.map vertex
  (.polyline (corners.map (·.1)) closed, reports ++ corners.flatMap (·.2))

end Record

end Toolpath.Drawing
