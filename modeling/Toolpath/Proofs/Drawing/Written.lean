import Mathlib
import Toolpath.Drawing.Dxf

/-! Drawings as they are written: tags line by line, with a section of entities among them. What the
section describes is kept beside its tags, with the proof that the tags say so. Any text that reads
as a number may stand for it, the codes of a figure come in any order, and tags that its kind does
not read may stand anywhere between them. -/
namespace Toolpath.Drawing

/-- What a tag says, wherever it stands. -/
structure Content where
  code : Int
  value : List Char

/-- A tag as it is written: a line that reads as its code, and a line with its value. A code of more digits
than an integer may be written with has no such line. -/
structure WrittenTag where
  codeLine : List Char
  valueLine : List Char
  code : Int
  reads : Decimal.int? (Text.trim codeLine) = some code
  unbroken : '\n' ∉ codeLine ∧ '\n' ∉ valueLine

namespace WrittenTag

def lines (t : WrittenTag) : List (List Char) := [t.codeLine, t.valueLine]

def content (t : WrittenTag) : Content := ⟨t.code, Text.trim t.valueLine⟩

end WrittenTag

/-- A marker and the tags that belong to it, up to the next marker. -/
structure WrittenRecord where
  marker : WrittenTag
  tags : List WrittenTag
  marks : marker.code = 0
  plain : ∀ t ∈ tags, t.code ≠ 0

namespace WrittenRecord

/-- The name in capital letters; it may be written in any others. -/
def name (r : WrittenRecord) : List Char := Text.upper r.marker.content.value

def contents (r : WrittenRecord) : List Content := r.tags.map WrittenTag.content

def allTags (r : WrittenRecord) : List WrittenTag := r.marker :: r.tags

end WrittenRecord

/-- The numbers behind some codes in order, none where a value is not a finite number. -/
def numbersAt (codes : List Int) (contents : List Content) : List (Int × Option Float) :=
  (contents.filter (·.code ∈ codes)).map fun c => (c.code, Decimal.finite? c.value)

/-- The codes from 10 to 59 are those of numbers. -/
def Numeric (contents : List Content) : Prop :=
  ∀ c ∈ contents, 10 ≤ c.code → c.code ≤ 59 → (Decimal.finite? c.value).isSome

/-- The kinds that are described by one number for each of their codes. -/
inductive Figure where
  | line
  | circle
  | arc

namespace Figure

def name : Figure → String
  | .line => "LINE"
  | .circle => "CIRCLE"
  | .arc => "ARC"

def codes : Figure → List Int
  | .line => [10, 20, 11, 21]
  | .circle => [10, 20, 40]
  | .arc => [10, 20, 40, 50, 51]

def entity (f : Figure) (value : Int → Float) : Entity :=
  match f with
  | .line => .line (value 10) (value 20) (value 11) (value 21)
  | .circle => .circle (value 10) (value 20) (value 40)
  | .arc => .arc (value 10) (value 20) (value 40) (value 50) (value 51)

end Figure

structure WrittenFigure where
  figure : Figure
  record : WrittenRecord
  value : Int → Float
  named : record.name = figure.name.toList
  numeric : Numeric record.contents
  values : (numbersAt figure.codes record.contents).Perm
    (figure.codes.map fun code => (code, some (value code)))

/-- The lowest bit of flags that are written as a number. -/
def lowestBit (flags : Float) : Bool :=
  match Binary64.truncate flags with
  | .ok n => n % 2 == 1
  | .error _ => false

/-- The flags of a polyline: at most one tag holds them, and it holds a finite number. -/
def Flagged (flags : Option Float) (contents : List Content) : Prop :=
  numbersAt [70] contents = flags.toList.map fun x => (70, some x)

/-- The numbers of vertices that are inline, the x of each before its y. -/
def cornerNumbers (points : List (Float × Float)) : List (Int × Option Float) :=
  points.flatMap fun p => [(10, some p.1), (20, some p.2)]

/-- A polyline whose vertices are inline. -/
structure WrittenOutline where
  record : WrittenRecord
  points : List (Float × Float)
  flags : Option Float
  named : record.name = "LWPOLYLINE".toList
  corners : numbersAt [10, 20] record.contents = cornerNumbers points
  flagged : Flagged flags record.contents

structure WrittenVertex where
  record : WrittenRecord
  point : Float × Float
  named : record.name = "VERTEX".toList
  numeric : Numeric record.contents
  values : (numbersAt [10, 20] record.contents).Perm [(10, some point.1), (20, some point.2)]

/-- A polyline whose vertices are records of their own, with or without an end of their sequence. -/
structure WrittenPolyline where
  header : WrittenRecord
  flags : Option Float
  vertices : List WrittenVertex
  finish : Option WrittenRecord
  named : header.name = "POLYLINE".toList
  flagged : Flagged flags header.contents
  finished : ∀ r ∈ finish, r.name = "SEQEND".toList

/-- The names that mean something to a reader of a section. -/
def readNames : List (List Char) :=
  ["LINE".toList, "LWPOLYLINE".toList, "POLYLINE".toList, "CIRCLE".toList, "ARC".toList,
    "ENDSEC".toList]

/-- A record of any other kind. -/
structure WrittenOther where
  record : WrittenRecord
  unread : record.name ∉ readNames

inductive Group where
  | figure (f : WrittenFigure)
  | outline (o : WrittenOutline)
  | polyline (p : WrittenPolyline)
  | other (o : WrittenOther)

namespace Group

def records : Group → List WrittenRecord
  | .figure f => [f.record]
  | .outline o => [o.record]
  | .polyline p => p.header :: (p.vertices.map (·.record) ++ p.finish.toList)
  | .other o => [o.record]

def entity? : Group → Option Entity
  | .figure f => some (f.figure.entity f.value)
  | .outline o => some (.polyline o.points (o.flags.any lowestBit))
  | .polyline p => some (.polyline (p.vertices.map (·.point)) (p.flags.any lowestBit))
  | .other _ => none

/-- A polyline without an end of sequence takes the vertices that follow it for its own. -/
def IsOpen : Group → Prop
  | .polyline p => p.finish = none
  | .figure _ | .outline _ | .other _ => False

/-- A record that an open polyline would take for its own. -/
def IsStray : Group → Prop
  | .other o => o.record.name = "VERTEX".toList ∨ o.record.name = "SEQEND".toList
  | .figure _ | .outline _ | .polyline _ => False

end Group

/-- The tag that begins the section of entities. -/
def Content.Opens (c : Content) : Prop := c.code = 2 ∧ Text.upper c.value = "ENTITIES".toList

/-- The tag that ends a section. -/
def Content.Ends (c : Content) : Prop := c.code = 0 ∧ Text.upper c.value = "ENDSEC".toList

/-- A document: tags before the section of entities, the section, and any tags after it. Blank lines
may follow. -/
structure Document where
  before : List WrittenTag
  title : WrittenTag
  leading : List WrittenTag
  groups : List Group
  finish : WrittenTag
  after : List WrittenTag
  blanks : List (List Char)
  first : ∀ t ∈ before, ¬ t.content.Opens
  opens : title.content.Opens
  plain : ∀ t ∈ leading, t.code ≠ 0
  apart : groups.IsChain fun g next => ¬ (g.IsOpen ∧ next.IsStray)
  ends : finish.content.Ends
  blank : ∀ line ∈ blanks, Text.trim line = [] ∧ '\n' ∉ line

namespace Document

def records (d : Document) : List WrittenRecord := d.groups.flatMap Group.records

def tags (d : Document) : List WrittenTag :=
  d.before ++ d.title :: (d.leading ++ d.records.flatMap WrittenRecord.allTags ++
    d.finish :: d.after)

def text (d : Document) : List Char :=
  Text.joinLines (d.tags.flatMap WrittenTag.lines ++ d.blanks)

/-- What the document describes, in order. -/
def entities (d : Document) : List Entity := d.groups.filterMap Group.entity?

end Document

end Toolpath.Drawing
