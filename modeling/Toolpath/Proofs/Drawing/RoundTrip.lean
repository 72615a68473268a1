import Mathlib
import Toolpath.Proofs.Drawing.Pairing
import Toolpath.Proofs.Drawing.Records

/-! Reading a written document. Its lines pair up into its tags, the tags from the title on into its
records, and the records into its groups; each group is read as the entity that it describes, and
nothing is reported. -/
namespace Toolpath.Drawing
open Decimal

/-! Lines into tags. -/

theorem pair_blanks {lines : List (List Char)} (blank : ∀ line ∈ lines, Text.trim line = [])
    (number : Int) : Tag.pair number (lines.map Text.trim) = ([], []) := by
  induction lines generalizing number with
  | nil => rfl
  | cons line lines ih =>
    obtain ⟨here, rest⟩ := List.forall_mem_cons.mp blank
    rw [List.map_cons, here, Tag.pair, ih rest]

theorem allLines_written (ts : List WrittenTag) :
    Entry.allLines (ts.map .tag) = ts.flatMap WrittenTag.lines :=
  List.flatMap_map _ _ _

theorem tags_written (line : Int) (ts : List WrittenTag) :
    (Entry.tags line (ts.map .tag)).map Tag.content = ts.map WrittenTag.content ∧
      Entry.reports line (ts.map .tag) = [] := by
  induction ts generalizing line with
  | nil => exact ⟨rfl, rfl⟩
  | cons t ts ih =>
    obtain ⟨contents, silent⟩ := ih (line + 2)
    constructor
    · rw [List.map_cons, Entry.tags_cons, List.map_append, List.map_cons, ← contents]
      rfl
    · rw [List.map_cons, Entry.reports_cons]
      exact silent

/-- The tags of a text that was written tag by tag, with blank lines at its end. -/
theorem ofText_written {ts : List WrittenTag} (nonempty : ts ≠ []) {blanks : List (List Char)}
    (blank : ∀ line ∈ blanks, Text.trim line = [] ∧ '\n' ∉ line) :
    ∃ tags, Tag.ofText (Text.joinLines (ts.flatMap WrittenTag.lines ++ blanks)) = (tags, []) ∧
      tags.map Tag.content = ts.map WrittenTag.content := by
  have lines : ts.flatMap WrittenTag.lines ++ blanks ≠ [] := by
    obtain ⟨t, rest, rfl⟩ := List.exists_cons_of_ne_nil nonempty
    simp [WrittenTag.lines]
  have unbroken : ∀ line ∈ ts.flatMap WrittenTag.lines ++ blanks, '\n' ∉ line := by
    rw [← allLines_written]
    exact List.forall_mem_append.mpr
      ⟨Entry.allLines_unbroken _, fun line member => (blank line member).2⟩
  obtain ⟨contents, silent⟩ := tags_written 1 ts
  refine ⟨Entry.tags 1 (ts.map .tag), ?_, contents⟩
  rw [Tag.ofText, Gcode.splitLines_joinLines lines unbroken, ← allLines_written, List.map_append,
    pair_entries, pair_blanks (fun line member => (blank line member).1), silent, List.append_nil]
  rfl

theorem Document.ofText_text (d : Document) :
    ∃ tags, Tag.ofText d.text = (tags, []) ∧ tags.map Tag.content = d.tags.map WrittenTag.content :=
  ofText_written (by simp [Document.tags]) d.blank

/-! Tags into records. -/

theorem exists_written {tags : List Tag} {ts : List WrittenTag}
    (same : tags.map Tag.content = ts.map WrittenTag.content) {t : Tag} (member : t ∈ tags) :
    ∃ w ∈ ts, w.content = t.content :=
  List.mem_map.mp (same ▸ List.mem_map_of_mem member)

theorem code_of_contents {tags : List Tag} {ts : List WrittenTag}
    (same : tags.map Tag.content = ts.map WrittenTag.content) (plain : ∀ t ∈ ts, t.code ≠ 0) :
    ∀ t ∈ tags, t.code ≠ 0 := by
  intro t member
  obtain ⟨w, inside, content⟩ := exists_written same member
  have code : w.code = t.code := congrArg Content.code content
  rw [← code]
  exact plain w inside

namespace Record

def content (r : Record) : Content × List Content := (r.marker.content, r.contents)

/-- What a tag before some tags makes of them. -/
def prepend (tag : Tag) (read : List Tag × List Record) : List Tag × List Record :=
  if tag.code = 0 then ([], ⟨tag, read.1⟩ :: read.2) else (tag :: read.1, read.2)

theorem group_eq (tags : List Tag) : group tags = (tags.foldr prepend ([], [])).2 := rfl

theorem foldr_plain {front : List Tag} (plain : ∀ t ∈ front, t.code ≠ 0)
    (read : List Tag × List Record) : front.foldr prepend read = (front ++ read.1, read.2) := by
  induction front with
  | nil => rfl
  | cons t front ih =>
    obtain ⟨here, rest⟩ := List.forall_mem_cons.mp plain
    rw [List.foldr_cons, ih rest, prepend, if_neg here]
    rfl

end Record

def WrittenRecord.content (r : WrittenRecord) : Content × List Content :=
  (r.marker.content, r.contents)

theorem foldr_records (written : List WrittenRecord) {tags : List Tag}
    (same : tags.map Tag.content =
      (written.flatMap WrittenRecord.allTags).map WrittenTag.content) :
    ∃ records, tags.foldr Record.prepend ([], []) = ([], records) ∧
      records.map Record.content = written.map WrittenRecord.content := by
  induction written generalizing tags with
  | nil =>
    rw [List.flatMap_nil, List.map_nil, List.map_eq_nil_iff] at same
    exact ⟨[], by rw [same, List.foldr_nil], rfl⟩
  | cons r written ih =>
    rw [List.flatMap_cons, WrittenRecord.allTags, List.cons_append, List.map_cons, List.map_append]
      at same
    obtain ⟨marker, others, rfl, marks, contents⟩ := List.map_eq_cons_iff.mp same
    obtain ⟨front, back, rfl, own, following⟩ := List.map_eq_append_iff.mp contents
    obtain ⟨records, read, alike⟩ := ih following
    have zero : marker.code = 0 := (congrArg Content.code marks).trans r.marks
    refine ⟨⟨marker, front⟩ :: records, ?_, ?_⟩
    · rw [List.foldr_cons, List.foldr_append, read,
        Record.foldr_plain (code_of_contents own r.plain), Record.prepend, if_pos zero,
        List.append_nil]
    · rw [List.map_cons, List.map_cons, alike, Record.content, marks, Record.contents, own]
      rfl

/-- The records of a section, whatever tags stand before the first one. -/
theorem group_written {leading : List WrittenTag} (plain : ∀ t ∈ leading, t.code ≠ 0)
    (written : List WrittenRecord) {tags : List Tag}
    (same : tags.map Tag.content =
      (leading ++ written.flatMap WrittenRecord.allTags).map WrittenTag.content) :
    (Record.group tags).map Record.content = written.map WrittenRecord.content := by
  rw [List.map_append] at same
  obtain ⟨front, back, rfl, before, following⟩ := List.map_eq_append_iff.mp same
  obtain ⟨records, read, alike⟩ := foldr_records written following
  rw [Record.group_eq, List.foldr_append, read, Record.foldr_plain (code_of_contents before plain)]
  exact alike

/-! The section of entities. -/

theorem entitiesSection?_written {before : List WrittenTag} {title : WrittenTag}
    {body : List WrittenTag} (first : ∀ t ∈ before, ¬ t.content.Opens)
    (opens : title.content.Opens) {tags : List Tag}
    (same : tags.map Tag.content = (before ++ title :: body).map WrittenTag.content) :
    ∃ rest, entitiesSection? tags = some rest ∧
      rest.map Tag.content = body.map WrittenTag.content := by
  induction before generalizing tags with
  | nil =>
    rw [List.nil_append, List.map_cons] at same
    obtain ⟨t, rest, rfl, here, following⟩ := List.map_eq_cons_iff.mp same
    rw [← here] at opens
    exact ⟨rest, if_pos opens, following⟩
  | cons w before ih =>
    obtain ⟨other, others⟩ := List.forall_mem_cons.mp first
    rw [List.cons_append, List.map_cons] at same
    obtain ⟨t, rest, rfl, here, following⟩ := List.map_eq_cons_iff.mp same
    have elsewhere : ¬ (t.code = 2 ∧ Text.upper t.value = "ENTITIES".toList) := by
      rw [← here] at other
      exact other
    rw [entitiesSection?, if_neg elsewhere]
    exact ih others following

theorem endsSection_eq (t : Tag) : endsSection t = true ↔ t.content.Ends := by
  simp [endsSection, Content.Ends, Tag.content]

/-- The tags of a section are those before the one that ends it. -/
theorem takeWhile_written {inner after : List WrittenTag} {finish : WrittenTag}
    (inside : ∀ t ∈ inner, ¬ t.content.Ends) (ends : finish.content.Ends) {tags : List Tag}
    (same : tags.map Tag.content = (inner ++ finish :: after).map WrittenTag.content) :
    (tags.takeWhile (!endsSection ·)).map Tag.content = inner.map WrittenTag.content := by
  rw [List.map_append, List.map_cons] at same
  obtain ⟨front, others, rfl, own, rest⟩ := List.map_eq_append_iff.mp same
  obtain ⟨last, back, rfl, here, _⟩ := List.map_eq_cons_iff.mp rest
  have within : ∀ t ∈ front, (!endsSection t) = true := by
    intro t member
    obtain ⟨w, written, content⟩ := exists_written own member
    rw [Bool.not_eq_true', Bool.eq_false_iff, ne_eq, endsSection_eq, ← content]
    exact inside w written
  have stops : ∀ t ∈ (last :: back).head?, (!endsSection t) = false := by
    rintro t ⟨⟩
    rw [Bool.not_eq_false', endsSection_eq, here]
    exact ends
  rw [takeWhile_append_stop within stops, own]

/-! Records into entities. -/

namespace Record
variable {r : Record} {w : WrittenRecord}

theorem kind_of_content (same : r.content = w.content) : r.kind = w.name :=
  congrArg (fun c : Content × List Content => Text.upper c.1.value) same

theorem contents_of_content (same : r.content = w.content) : r.contents = w.contents :=
  congrArg Prod.snd same

theorem isKind_of_content (same : r.content = w.content) (name : String) :
    r.isKind name = (w.name == name.toList) := by
  rw [isKind, kind_of_content same]

theorem isKind_of_name (same : r.content = w.content) {own : String} (named : w.name = own.toList)
    (name : String) : r.isKind name = (own == name) := by
  rw [isKind_of_content same, named, Bool.eq_iff_iff, beq_iff_eq, beq_iff_eq, String.toList_inj]

theorem isKind_of_ne (same : r.content = w.content) {name : String} (other : w.name ≠ name.toList) :
    r.isKind name = false := by
  rw [isKind_of_content same, beq_eq_false_iff_ne]
  exact other

end Record

/-- The records behind a group that do not belong to it. -/
def Group.EndsBefore (g : Group) (rest : List Record) : Prop :=
  g.IsOpen → ∀ r ∈ rest.head?, r.isKind "VERTEX" = false ∧ r.isKind "SEQEND" = false

theorem readRecords_figure (f : WrittenFigure) {r : Record} (same : r.content = f.record.content)
    (rest : List Record) :
    readRecords (r :: rest) = (readRecords rest).consEntity (f.figure.entity f.value, []) := by
  have numeric := f.numeric
  have values := f.values
  rw [← Record.contents_of_content same] at numeric values
  have read := f.figure.read_eq numeric values
  have kind := Record.isKind_of_name same f.named
  rw [readRecords]
  simp only [kind]
  rw [← read]
  cases f.figure <;> rfl

theorem readRecords_outline (o : WrittenOutline) {r : Record} (same : r.content = o.record.content)
    (rest : List Record) :
    readRecords (r :: rest) =
      (readRecords rest).consEntity (.polyline o.points (o.flags.any lowestBit), []) := by
  have corners := o.corners
  have flagged := o.flagged
  rw [← Record.contents_of_content same] at corners flagged
  have kind := Record.isKind_of_name same o.named
  rw [readRecords]
  simp only [kind]
  rw [← Record.lightPolyline_eq corners flagged]
  rfl

theorem readRecords_other (o : WrittenOther) {r : Record} (same : r.content = o.record.content)
    (rest : List Record) : readRecords (r :: rest) = (readRecords rest).consEntry (skippedEntry r) := by
  have unread (name : String) (read : name.toList ∈ readNames) : r.isKind name = false :=
    Record.isKind_of_ne same fun named => o.unread (named ▸ read)
  rw [readRecords, unread "POLYLINE" (by decide), unread "LINE" (by decide),
    unread "LWPOLYLINE" (by decide), unread "CIRCLE" (by decide), unread "ARC" (by decide)]
  rfl

/-- The records of vertices are read as their points. -/
theorem map_vertex {records : List Record} {vertices : List WrittenVertex}
    (same : List.Forall₂ (fun r v => r.content = v.record.content) records vertices) :
    (∀ r ∈ records, r.isKind "VERTEX" = true) ∧
      records.map Record.vertex = vertices.map fun v => (v.point, []) := by
  induction same with
  | nil => exact ⟨List.forall_mem_nil _, rfl⟩
  | @cons r v records vertices here _ ih =>
    have numeric := v.numeric
    have values := v.values
    rw [← Record.contents_of_content here] at numeric values
    refine ⟨List.forall_mem_cons.mpr ⟨Record.isKind_of_name here v.named "VERTEX", ih.1⟩, ?_⟩
    rw [List.map_cons, List.map_cons, ih.2, Record.vertex_eq numeric values]

theorem polyline_eq (p : WrittenPolyline) {header : Record} {records : List Record}
    (same : header.content = p.header.content)
    (vertices : records.map Record.vertex = p.vertices.map fun v => (v.point, [])) :
    header.polyline records =
      (.polyline (p.vertices.map (·.point)) (p.flags.any lowestBit), []) := by
  have flagged := p.flagged
  rw [← Record.contents_of_content same] at flagged
  have silent : (p.vertices.map fun v => (v.point, ([] : List Diagnostic))).flatMap (·.2) = [] := by
    simp
  simp only [Record.polyline, Record.anyClosed_flagged flagged, vertices, silent, List.map_map]
  rfl

theorem afterVertices_append {records : List Record}
    (vertices : ∀ r ∈ records, r.isKind "VERTEX" = true) (others : List Record) :
    afterVertices (records ++ others) = afterVertices others := by
  rw [afterVertices, List.dropWhile_append_of_pos vertices, ← afterVertices]

/-- An end of sequence belongs to the vertices, and what else follows them does not. -/
theorem afterVertices_finish {finish : Option WrittenRecord}
    (finished : ∀ e ∈ finish, e.name = "SEQEND".toList) {last rest : List Record}
    (same : last.map Record.content = finish.toList.map WrittenRecord.content)
    (ends : finish = none →
      ∀ r ∈ rest.head?, r.isKind "VERTEX" = false ∧ r.isKind "SEQEND" = false) :
    (∀ r ∈ (last ++ rest).head?, r.isKind "VERTEX" = false) ∧ afterVertices (last ++ rest) = rest := by
  cases finish with
  | none =>
    have stray := ends rfl
    rw [Option.toList_none, List.map_nil, List.map_eq_nil_iff] at same
    rw [same, List.nil_append]
    refine ⟨fun r head => (stray r head).1, ?_⟩
    cases rest with
    | nil => rfl
    | cons r rest => simp [afterVertices, (stray r rfl).1, (stray r rfl).2]
  | some e =>
    rw [Option.toList_some, List.map_singleton] at same
    obtain ⟨r, rfl, here⟩ := List.map_eq_singleton_iff.mp same
    have vertex : r.isKind "VERTEX" = false := Record.isKind_of_name here (finished e rfl) "VERTEX"
    have seqend : r.isKind "SEQEND" = true := Record.isKind_of_name here (finished e rfl) "SEQEND"
    rw [List.singleton_append]
    refine ⟨?_, by simp [afterVertices, vertex, seqend]⟩
    rintro r ⟨⟩
    exact vertex

theorem readRecords_polyline (p : WrittenPolyline) {own rest : List Record}
    (same : own.map Record.content = (Group.polyline p).records.map WrittenRecord.content)
    (ends : (Group.polyline p).EndsBefore rest) :
    readRecords (own ++ rest) = (readRecords rest).consEntity
      (.polyline (p.vertices.map (·.point)) (p.flags.any lowestBit), []) := by
  rw [Group.records, List.map_cons, List.map_append] at same
  obtain ⟨header, others, rfl, marked, following⟩ := List.map_eq_cons_iff.mp same
  obtain ⟨corners, last, rfl, inside, finish⟩ := List.map_eq_append_iff.mp following
  have alike : List.Forall₂ (fun r v => r.content = v.record.content) corners p.vertices := by
    rwa [List.map_map, ← List.forall₂_eq_eq_eq, List.forall₂_map_left_iff,
      List.forall₂_map_right_iff] at inside
  obtain ⟨own, points⟩ := map_vertex alike
  obtain ⟨stops, after⟩ := afterVertices_finish p.finished finish ends
  have kind : header.isKind "POLYLINE" = true := Record.isKind_of_name marked p.named "POLYLINE"
  rw [List.cons_append, List.append_assoc, readRecords, if_pos kind,
    takeWhile_append_stop own stops, afterVertices_append own, after, polyline_eq p marked points]

/-- A group is read as what it describes, and reading goes on behind it. -/
theorem readRecords_group (g : Group) {own rest : List Record}
    (same : own.map Record.content = g.records.map WrittenRecord.content)
    (ends : g.EndsBefore rest) :
    (readRecords (own ++ rest)).entities = g.entity?.toList ++ (readRecords rest).entities ∧
      (readRecords (own ++ rest)).diagnostics = (readRecords rest).diagnostics := by
  cases g with
  | figure f =>
    obtain ⟨r, rfl, here⟩ := List.map_eq_singleton_iff.mp same
    rw [List.singleton_append, readRecords_figure f here]
    exact ⟨rfl, rfl⟩
  | outline o =>
    obtain ⟨r, rfl, here⟩ := List.map_eq_singleton_iff.mp same
    rw [List.singleton_append, readRecords_outline o here]
    exact ⟨rfl, rfl⟩
  | polyline p =>
    rw [readRecords_polyline p same ends]
    exact ⟨rfl, rfl⟩
  | other o =>
    obtain ⟨r, rfl, here⟩ := List.map_eq_singleton_iff.mp same
    rw [List.singleton_append, readRecords_other o here]
    exact ⟨rfl, rfl⟩

/-- The first record of a group, which no polyline before it takes for its own. -/
theorem Group.exists_first (g : Group) : ∃ first others, g.records = first :: others ∧
    (¬ g.IsStray → first.name ≠ "VERTEX".toList ∧ first.name ≠ "SEQEND".toList) := by
  cases g with
  | figure f =>
    refine ⟨f.record, [], rfl, fun _ => ?_⟩
    rw [f.named]
    cases f.figure <;> decide
  | outline o => exact ⟨o.record, [], rfl, fun _ => by rw [o.named]; decide⟩
  | polyline p => exact ⟨p.header, _, rfl, fun _ => by rw [p.named]; decide⟩
  | other o => exact ⟨o.record, [], rfl, not_or.mp⟩

/-- The group behind an open polyline does not begin with a record that it would take. -/
theorem endsBefore_following {g : Group} {groups : List Group}
    (apart : (g :: groups).IsChain fun g next => ¬ (g.IsOpen ∧ next.IsStray)) {rest : List Record}
    (same : rest.map Record.content = (groups.flatMap Group.records).map WrittenRecord.content) :
    g.EndsBefore rest := by
  intro isOpen r head
  cases groups with
  | nil =>
    rw [List.flatMap_nil, List.map_nil, List.map_eq_nil_iff] at same
    rw [same] at head
    cases head
  | cons next groups =>
    have free : ¬ next.IsStray := fun stray =>
      (List.isChain_cons_cons.mp apart).1 ⟨isOpen, stray⟩
    obtain ⟨first, others, shape, names⟩ := next.exists_first
    rw [List.flatMap_cons, shape, List.cons_append, List.map_cons] at same
    obtain ⟨r, tail, rfl, here, _⟩ := List.map_eq_cons_iff.mp same
    cases head
    exact ⟨Record.isKind_of_ne here (names free).1, Record.isKind_of_ne here (names free).2⟩

theorem readRecords_groups {groups : List Group}
    (apart : groups.IsChain fun g next => ¬ (g.IsOpen ∧ next.IsStray)) {records : List Record}
    (same : records.map Record.content =
      (groups.flatMap Group.records).map WrittenRecord.content) :
    (readRecords records).entities = groups.filterMap Group.entity? ∧
      (readRecords records).diagnostics = [] := by
  induction groups generalizing records with
  | nil =>
    rw [List.flatMap_nil, List.map_nil, List.map_eq_nil_iff] at same
    rw [same, readRecords]
    exact ⟨rfl, rfl⟩
  | cons g groups ih =>
    rw [List.flatMap_cons, List.map_append] at same
    obtain ⟨own, rest, rfl, here, following⟩ := List.map_eq_append_iff.mp same
    obtain ⟨entities, diagnostics⟩ :=
      readRecords_group g here (endsBefore_following apart following)
    obtain ⟨others, silent⟩ := ih apart.tail following
    rw [entities, diagnostics, others, silent]
    cases shape : g.entity? <;> simp [shape]

/-! The document. -/

theorem Group.name_ne_endsec (g : Group) : ∀ r ∈ g.records, r.name ≠ "ENDSEC".toList := by
  intro r member
  cases g with
  | figure f =>
    rw [List.mem_singleton.mp member, f.named]
    cases f.figure <;> decide
  | outline o =>
    rw [List.mem_singleton.mp member, o.named]
    decide
  | polyline p =>
    rcases List.mem_cons.mp member with rfl | inside
    · rw [p.named]
      decide
    · rcases List.mem_append.mp inside with corner | last
      · obtain ⟨v, _, rfl⟩ := List.mem_map.mp corner
        rw [v.named]
        decide
      · rw [p.finished r (Option.mem_toList.mp last)]
        decide
  | other o =>
    rw [List.mem_singleton.mp member]
    exact fun named => o.unread (named ▸ by decide)

theorem Document.inside (d : Document) :
    ∀ t ∈ d.leading ++ d.records.flatMap WrittenRecord.allTags, ¬ t.content.Ends := by
  rintro t member ⟨zero, named⟩
  rcases List.mem_append.mp member with leading | written
  · exact d.plain t leading zero
  · obtain ⟨r, inside, own⟩ := List.mem_flatMap.mp written
    obtain ⟨g, _, part⟩ := List.mem_flatMap.mp inside
    rcases List.mem_cons.mp own with rfl | tag
    · exact g.name_ne_endsec r part named
    · exact r.plain t tag zero

/-- Reading a written document gives the entities that it describes, in order, and nothing is
reported. -/
theorem readDxf_text (d : Document) :
    (readDxf d.text).entities = d.entities ∧ (readDxf d.text).diagnostics = [] := by
  obtain ⟨tags, paired, same⟩ := d.ofText_text
  obtain ⟨body, found, contents⟩ := entitiesSection?_written d.first d.opens same
  have inner := takeWhile_written d.inside d.ends contents
  have records := group_written d.plain d.records inner
  obtain ⟨entities, silent⟩ := readRecords_groups d.apart records
  simp only [readDxf, paired, found]
  rw [entities, silent]
  exact ⟨rfl, List.mergeSort_nil⟩

end Toolpath.Drawing
