import Toolpath.Drawing.Record
import Toolpath.Log.Entry

/-! Reading a DXF text: the records between the name ENTITIES and the next end of section, turned into entities
in order. Records of other kinds are skipped. -/
namespace Toolpath.Drawing

def logSource : String := "core.dxf_parser"

/-- What a list of records holds: the entities, the reports and the notes, each in order. -/
structure Reading where
  entities : List Entity
  diagnostics : List Diagnostic
  log : List Log.Entry

namespace Reading

def empty : Reading := ⟨[], [], []⟩

def consEntity (found : Entity × List Diagnostic) (r : Reading) : Reading :=
  { r with entities := found.1 :: r.entities, diagnostics := found.2 ++ r.diagnostics }

def consEntry (entry : Log.Entry) (r : Reading) : Reading := { r with log := entry :: r.log }

end Reading

def skippedEntry (r : Record) : Log.Entry :=
  Log.debug logSource ("Skipping unsupported DXF entity " ++ String.ofList r.kind ++ " at line " ++
    String.ofList (Decimal.integer r.marker.line))

/-- What follows a polyline's vertices; an end of sequence belongs to it. -/
def afterVertices (records : List Record) : List Record :=
  match records.dropWhile (·.isKind "VERTEX") with
  | [] => []
  | r :: rest => if r.isKind "SEQEND" then rest else r :: rest

theorem afterVertices_le (records : List Record) : (afterVertices records).length ≤ records.length := by
  have le := (List.dropWhile_sublist (·.isKind "VERTEX") (l := records)).length_le
  unfold afterVertices
  split
  · simp
  · rename_i h
    rw [h] at le
    split
    · simp only [List.length_cons] at le
      omega
    · exact le

def readRecords : List Record → Reading
  | [] => .empty
  | r :: rest =>
    if r.isKind "POLYLINE" then
      (readRecords (afterVertices rest)).consEntity (r.polyline (rest.takeWhile (·.isKind "VERTEX")))
    else if r.isKind "LINE" then (readRecords rest).consEntity r.line
    else if r.isKind "LWPOLYLINE" then (readRecords rest).consEntity r.lightPolyline
    else if r.isKind "CIRCLE" then (readRecords rest).consEntity r.circle
    else if r.isKind "ARC" then (readRecords rest).consEntity r.arc
    else (readRecords rest).consEntry (skippedEntry r)
termination_by records => records.length
decreasing_by
  all_goals
    have := afterVertices_le rest
    simp only [List.length_cons]
    omega

/-- The tags after the first one that names the section of entities. -/
def entitiesSection? : List Tag → Option (List Tag)
  | [] => none
  | tag :: rest =>
    if tag.code = 2 ∧ Text.upper tag.value = "ENTITIES".toList then some rest else entitiesSection? rest

def endsSection (tag : Tag) : Bool := tag.code == 0 && Text.upper tag.value == "ENDSEC".toList

def readDxf (text : List Char) : Reading :=
  let (tags, reports) := Tag.ofText text
  match entitiesSection? tags with
  | none =>
    { entities := []
      diagnostics := Diagnostic.sorted (reports ++ [.ofLine 0 "No ENTITIES section found" .format])
      log := [Log.warning logSource "DXF text has no ENTITIES section"] }
  | some body =>
    let reading := readRecords (Record.group (body.takeWhile (!endsSection ·)))
    { entities := reading.entities
      diagnostics := Diagnostic.sorted (reports ++ reading.diagnostics)
      log := reading.log ++
        [Log.info logSource ("Read " ++ toString reading.entities.length ++ " entities from DXF")] }

end Toolpath.Drawing
