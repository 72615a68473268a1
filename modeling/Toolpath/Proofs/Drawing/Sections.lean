import Mathlib
import Toolpath.Proofs.Drawing.RoundTrip

/-! Drawings that are divided into sections. The entities are those behind the first tag that bears
the name of their section, wherever it stands, up to the end of a section; what a tag says counts,
not the line on which it stands. So the other sections do not matter as long as no tag before the
section of entities looks like its name, and a layer of that name hides the drawing. -/
namespace Toolpath.Drawing

/-! What is read of tags does not depend on the lines on which they stand. -/

def Content.tag (c : Content) : Tag := ⟨c.code, c.value, 0⟩

namespace Tag
variable (t : Tag)

/-- The same tag wherever it stands. -/
def unplaced : Tag := t.content.tag

@[simp] theorem unplaced_code : t.unplaced.code = t.code := rfl

@[simp] theorem unplaced_value : t.unplaced.value = t.value := rfl

end Tag

namespace Record

def unplaced (r : Record) : Record := ⟨r.marker.unplaced, r.tags.map Tag.unplaced⟩

@[simp] theorem number_unplaced (t : Tag) : (number t.unplaced).1 = (number t).1 := by
  rw [number_eq, number_eq, Tag.unplaced_value]

@[simp] theorem isClosed_unplaced (t : Tag) : (isClosed t.unplaced).1 = (isClosed t).1 := by
  simp only [isClosed, Tag.unplaced_value]
  generalize (Decimal.float? t.value).map Binary64.truncate = flags
  rcases flags with _ | _ | _ <;> rfl

theorem numbers_unplaced (seen : List Int) (tags : List Tag) :
    (numbers seen (tags.map Tag.unplaced)).1 = (numbers seen tags).1 := by
  induction tags generalizing seen with
  | nil => rfl
  | cons t tags ih =>
    by_cases reads : 10 ≤ t.code ∧ t.code ≤ 59 ∧ t.code ∉ seen
    · simp [numbers, reads, ih]
    · simp [numbers, reads, ih]

theorem required_unplaced (r : Record) (codes : List Int) :
    (r.unplaced.required codes).1 = (r.required codes).1 :=
  numbers_unplaced [] r.tags

theorem take_unplaced (o : Outline) (t : Tag) : (o.take t.unplaced).1 = (o.take t).1 := by
  simp only [Outline.take, Tag.unplaced_code, number_unplaced, isClosed_unplaced]
  split_ifs <;> rfl

theorem takeAll_unplaced (o : Outline) (tags : List Tag) :
    (o.takeAll (tags.map Tag.unplaced)).1 = (o.takeAll tags).1 := by
  induction tags generalizing o with
  | nil => rfl
  | cons t tags ih => simp only [List.map_cons, Outline.takeAll, ih, take_unplaced]

theorem anyClosed_cons (t : Tag) (tags : List Tag) :
    (anyClosed (t :: tags)).1 = ((t.code == 70 && (isClosed t).1) || (anyClosed tags).1) := by
  rw [anyClosed]
  by_cases flags : t.code = 70
  · rw [if_pos flags, beq_iff_eq.mpr flags]
    rcases isClosed t with ⟨_ | _, report⟩ <;> rfl
  · rw [if_neg flags, beq_false_of_ne flags]
    rfl

theorem anyClosed_unplaced (tags : List Tag) :
    (anyClosed (tags.map Tag.unplaced)).1 = (anyClosed tags).1 := by
  induction tags with
  | nil => rfl
  | cons t tags ih =>
    simp only [List.map_cons, anyClosed_cons, Tag.unplaced_code, isClosed_unplaced, ih]

theorem vertex_unplaced (r : Record) : r.unplaced.vertex.1 = r.vertex.1 := by
  simp only [vertex, unplaced, numbers_unplaced]

theorem polyline_unplaced (r : Record) (vertices : List Record) :
    (r.unplaced.polyline (vertices.map unplaced)).1 = (r.polyline vertices).1 := by
  have corners :
      ((vertices.map unplaced).map vertex).map (·.1) = (vertices.map vertex).map (·.1) := by
    simp only [List.map_map, Function.comp_def, vertex_unplaced]
  have closed : (anyClosed r.unplaced.tags).1 = (anyClosed r.tags).1 := anyClosed_unplaced r.tags
  simp only [polyline, corners, closed]

theorem lightPolyline_unplaced (r : Record) : r.unplaced.lightPolyline.1 = r.lightPolyline.1 := by
  simp only [lightPolyline, unplaced, takeAll_unplaced]

/-- What a record is read as that does not begin a polyline with vertices of its own. -/
def entity? (r : Record) : Option Entity :=
  if r.isKind "LINE" then some r.line.1
  else if r.isKind "LWPOLYLINE" then some r.lightPolyline.1
  else if r.isKind "CIRCLE" then some r.circle.1
  else if r.isKind "ARC" then some r.arc.1
  else none

theorem isKind_unplaced (r : Record) (name : String) : r.unplaced.isKind name = r.isKind name := rfl

theorem isKind_comp_unplaced (name : String) : (isKind · name) ∘ unplaced = (isKind · name) := rfl

theorem entity?_unplaced (r : Record) : r.unplaced.entity? = r.entity? := by
  simp only [entity?, isKind_unplaced, line, circle, arc, required_unplaced, lightPolyline_unplaced]

theorem group_unplaced (tags : List Tag) :
    group (tags.map Tag.unplaced) = (group tags).map unplaced := by
  suffices h : (tags.map Tag.unplaced).foldr prepend ([], []) =
      ((tags.foldr prepend ([], [])).1.map Tag.unplaced,
        (tags.foldr prepend ([], [])).2.map unplaced) by
    rw [group_eq, group_eq, h]
  induction tags with
  | nil => rfl
  | cons t tags ih =>
    rw [List.map_cons, List.foldr_cons, List.foldr_cons, ih]
    by_cases marks : t.code = 0
    · simp [prepend, marks, unplaced]
    · simp [prepend, marks]

end Record

theorem afterVertices_unplaced (records : List Record) :
    afterVertices (records.map Record.unplaced) = (afterVertices records).map Record.unplaced := by
  simp only [afterVertices, List.dropWhile_map, Record.isKind_comp_unplaced]
  cases records.dropWhile (Record.isKind · "VERTEX") with
  | nil => rfl
  | cons r rest =>
    by_cases finish : r.isKind "SEQEND" = true
    · simp [Record.isKind_unplaced, finish]
    · simp [Record.isKind_unplaced, finish]

theorem entities_cons (r : Record) (rest : List Record) :
    (readRecords (r :: rest)).entities =
      if r.isKind "POLYLINE" then
        (r.polyline (rest.takeWhile (·.isKind "VERTEX"))).1 ::
          (readRecords (afterVertices rest)).entities
      else r.entity?.toList ++ (readRecords rest).entities := by
  rw [readRecords, Record.entity?]
  split_ifs <;> rfl

/-- Records are read one by one, but for the vertices of a polyline, which are passed over with it. -/
theorem records_induction {motive : List Record → Prop} (nil : motive [])
    (polyline : ∀ r rest, r.isKind "POLYLINE" = true → motive (afterVertices rest) →
      motive (r :: rest))
    (other : ∀ r rest, ¬ r.isKind "POLYLINE" = true → motive rest → motive (r :: rest))
    (records : List Record) : motive records := by
  induction records using readRecords.induct with
  | case1 => exact nil
  | case2 r rest kind ih => exact polyline r rest kind ih
  | case3 r rest kind _ ih => exact other r rest kind ih
  | case4 r rest kind _ _ ih => exact other r rest kind ih
  | case5 r rest kind _ _ _ ih => exact other r rest kind ih
  | case6 r rest kind _ _ _ _ ih => exact other r rest kind ih
  | case7 r rest kind _ _ _ _ ih => exact other r rest kind ih

theorem entities_unplaced (records : List Record) :
    (readRecords (records.map Record.unplaced)).entities = (readRecords records).entities := by
  induction records using records_induction with
  | nil => rfl
  | polyline r rest kind ih =>
    rw [List.map_cons, entities_cons, entities_cons, Record.isKind_unplaced, if_pos kind,
      if_pos kind, afterVertices_unplaced, ih, List.takeWhile_map, Record.isKind_comp_unplaced,
      Record.polyline_unplaced]
  | other r rest kind ih =>
    rw [List.map_cons, entities_cons, entities_cons, Record.isKind_unplaced, if_neg kind,
      if_neg kind, Record.entity?_unplaced, ih]

/-- What is read of a body of tags, by what they say. -/
def entitiesOf (body : List Content) : List Entity :=
  (readRecords (Record.group (body.map Content.tag))).entities

theorem entities_group (tags : List Tag) :
    (readRecords (Record.group tags)).entities = entitiesOf (tags.map Tag.content) := by
  rw [entitiesOf, List.map_map, ← entities_unplaced, ← Record.group_unplaced]
  rfl

/-! Sections. -/

/-- The tag that begins a section. -/
def Content.Begins (c : Content) : Prop := c.code = 0 ∧ Text.upper c.value = "SECTION".toList

instance (c : Content) : Decidable c.Opens := inferInstanceAs (Decidable (_ ∧ _))

instance (c : Content) : Decidable c.Begins := inferInstanceAs (Decidable (_ ∧ _))

instance (c : Content) : Decidable c.Ends := inferInstanceAs (Decidable (_ ∧ _))

/-- A section as it is written: its marker, its name, its body, and its end. -/
structure WrittenSection where
  marker : WrittenTag
  title : WrittenTag
  body : List WrittenTag
  finish : WrittenTag
  begins : marker.content.Begins
  named : title.code = 2
  inside : ∀ t ∈ body, ¬ t.content.Begins ∧ ¬ t.content.Ends
  ends : finish.content.Ends

namespace WrittenSection

def tags (s : WrittenSection) : List WrittenTag := s.marker :: s.title :: (s.body ++ [s.finish])

/-- A document that holds only this section. -/
def text (s : WrittenSection) : List Char := Text.joinLines (s.tags.flatMap WrittenTag.lines)

theorem opens_of_dropWhile {body rest : List WrittenTag} {t : WrittenTag}
    (shape : body.dropWhile (fun t => ¬ t.content.Opens) = t :: rest) :
    t.content.Opens ∧ ∃ front, body = front ++ t :: rest ∧ ∀ u ∈ front, ¬ u.content.Opens := by
  have split := List.takeWhile_append_dropWhile (p := fun t => ¬ t.content.Opens) (l := body)
  have first := List.head?_dropWhile_not (fun t : WrittenTag => decide ¬ t.content.Opens) body
  rw [shape] at split first
  refine ⟨by simpa using first, _, split.symm, ?_⟩
  intro u member
  simpa using List.mem_takeWhile_imp member

/-- What a body leaves behind its first tag that bears the name of the section of entities, with
that tag for its name. -/
def namesake? (s : WrittenSection) : Option WrittenSection :=
  match shape : s.body.dropWhile (fun t => ¬ t.content.Opens) with
  | [] => none
  | t :: rest =>
    some
      { s with
        title := t
        body := rest
        named := (opens_of_dropWhile shape).1.1
        inside := by
          obtain ⟨-, front, split, -⟩ := opens_of_dropWhile shape
          intro u member
          apply s.inside
          rw [split]
          exact List.mem_append_right front (List.mem_cons_of_mem t member) }

theorem namesake?_eq_none {s : WrittenSection} (none : s.namesake? = none) :
    ∀ t ∈ s.body, ¬ t.content.Opens := by
  unfold namesake? at none
  split at none
  · rename_i shape
    simpa using shape
  · cases none

theorem namesake?_eq_some {s m : WrittenSection} (found : s.namesake? = some m) :
    m.finish = s.finish ∧ m.title.content.Opens ∧
      ∃ front, s.body = front ++ m.title :: m.body ∧ ∀ t ∈ front, ¬ t.content.Opens := by
  unfold namesake? at found
  split at found
  · cases found
  · rename_i t rest shape
    cases found
    exact ⟨rfl, opens_of_dropWhile shape⟩

theorem finish_not_opens (s : WrittenSection) : ¬ s.finish.content.Opens :=
  fun opens => absurd (s.ends.1.symm.trans opens.1) (by decide)

theorem marker_not_opens (s : WrittenSection) : ¬ s.marker.content.Opens :=
  fun opens => absurd (s.begins.1.symm.trans opens.1) (by decide)

theorem tags_not_open (s : WrittenSection) (other : ¬ s.title.content.Opens)
    (plain : ∀ t ∈ s.body, ¬ t.content.Opens) : ∀ t ∈ s.tags, ¬ t.content.Opens := by
  simp only [tags, List.forall_mem_cons, List.forall_mem_append]
  exact ⟨s.marker_not_opens, other, plain, s.finish_not_opens, List.forall_mem_nil _⟩

end WrittenSection

/-- A document of sections, exactly one of which has the name of the section of entities, with any
tags behind the last one, such as a mark of the end. -/
structure Sectioned where
  before : List WrittenSection
  drawing : WrittenSection
  after : List WrittenSection
  rest : List WrittenTag
  blanks : List (List Char)
  opens : drawing.title.content.Opens
  others : ∀ s ∈ before ++ after, ¬ s.title.content.Opens
  blank : ∀ line ∈ blanks, Text.trim line = [] ∧ '\n' ∉ line

namespace Sectioned

def tags (d : Sectioned) : List WrittenTag :=
  (d.before ++ d.drawing :: d.after).flatMap WrittenSection.tags ++ d.rest

def text (d : Sectioned) : List Char :=
  Text.joinLines (d.tags.flatMap WrittenTag.lines ++ d.blanks)

/-- The section that is read: the first one in which a tag bears the name, from that tag on. -/
def read (d : Sectioned) : WrittenSection :=
  (d.before.findSome? WrittenSection.namesake?).getD d.drawing

end Sectioned

/-- The entities of a text are those of the tags behind the first one that opens the section of
entities, up to the next end of a section. -/
theorem entities_written {before body after : List WrittenTag} {title finish : WrittenTag}
    (first : ∀ t ∈ before, ¬ t.content.Opens) (opens : title.content.Opens)
    (inside : ∀ t ∈ body, ¬ t.content.Ends) (ends : finish.content.Ends)
    {blanks : List (List Char)} (blank : ∀ line ∈ blanks, Text.trim line = [] ∧ '\n' ∉ line) :
    (readDxf (Text.joinLines ((before ++ title :: (body ++ finish :: after)).flatMap
      WrittenTag.lines ++ blanks))).entities = entitiesOf (body.map WrittenTag.content) := by
  have nonempty : before ++ title :: (body ++ finish :: after) ≠ [] := by simp
  obtain ⟨tags, paired, same⟩ := ofText_written nonempty blank
  obtain ⟨section_, found, contents⟩ := entitiesSection?_written first opens same
  have inner := takeWhile_written inside ends contents
  simp only [readDxf, paired, found]
  rw [entities_group, inner]

theorem WrittenSection.entities_text {s : WrittenSection} (opens : s.title.content.Opens) :
    (readDxf s.text).entities = entitiesOf (s.body.map WrittenTag.content) := by
  have marker : ∀ t ∈ [s.marker], ¬ t.content.Opens :=
    List.forall_mem_singleton.mpr s.marker_not_opens
  have read := @entities_written _ _ [] _ _ marker opens (fun t member => (s.inside t member).2)
    s.ends [] (List.forall_mem_nil _)
  rwa [List.append_nil] at read

/-- The first section in which a tag bears the name is read from that tag on. -/
theorem tags_split {before : List WrittenSection} (others : ∀ s ∈ before, ¬ s.title.content.Opens)
    {drawing : WrittenSection} (opens : drawing.title.content.Opens) (rest : List WrittenTag) :
    let read := (before.findSome? WrittenSection.namesake?).getD drawing
    read.title.content.Opens ∧ ∃ front back,
      (before ++ [drawing]).flatMap WrittenSection.tags ++ rest =
        front ++ read.title :: (read.body ++ read.finish :: back) ∧
      ∀ t ∈ front, ¬ t.content.Opens := by
  induction before with
  | nil =>
    refine ⟨opens, [drawing.marker], rest, ?_, ?_⟩
    · simp [WrittenSection.tags]
    · exact List.forall_mem_singleton.mpr drawing.marker_not_opens
  | cons s before ih =>
    obtain ⟨other, others⟩ := List.forall_mem_cons.mp others
    cases found : s.namesake? with
    | none =>
      obtain ⟨named, front, back, split, first⟩ := ih others
      rw [List.findSome?_cons, found]
      refine ⟨named, s.tags ++ front, back, ?_, ?_⟩
      · rw [List.cons_append, List.flatMap_cons, List.append_assoc, split, List.append_assoc]
      · intro t member
        rcases List.mem_append.mp member with own | later
        · exact s.tags_not_open other (WrittenSection.namesake?_eq_none found) t own
        · exact first t later
    | some m =>
      -- The name stands in this section, so the sections behind it are not looked at.
      obtain ⟨finish, named, front, body, first⟩ := WrittenSection.namesake?_eq_some found
      rw [List.findSome?_cons, found]
      refine ⟨named, s.marker :: s.title :: front,
        (before ++ [drawing]).flatMap WrittenSection.tags ++ rest, ?_, ?_⟩
      · simp [WrittenSection.tags, body, finish]
      · exact List.forall_mem_cons.mpr ⟨s.marker_not_opens, List.forall_mem_cons.mpr ⟨other, first⟩⟩

namespace Sectioned

theorem read_opens (d : Sectioned) : d.read.title.content.Opens :=
  (tags_split (fun s member => d.others s (List.mem_append_left _ member)) d.opens []).1

theorem entities_text (d : Sectioned) :
    (readDxf d.text).entities = entitiesOf (d.read.body.map WrittenTag.content) := by
  obtain ⟨opens, front, back, split, first⟩ := tags_split
    (fun s member => d.others s (List.mem_append_left _ member)) d.opens
    (d.after.flatMap WrittenSection.tags ++ d.rest)
  have tags : d.tags = front ++ d.read.title :: (d.read.body ++ d.read.finish :: back) := by
    rw [← Sectioned.read] at split
    rw [← split, Sectioned.tags]
    simp
  rw [text, tags]
  exact entities_written first opens (fun t member => (d.read.inside t member).2) d.read.ends
    d.blank

theorem read_eq_drawing (d : Sectioned) (plain : ∀ s ∈ d.before, ∀ t ∈ s.body, ¬ t.content.Opens) :
    d.read = d.drawing := by
  have none : d.before.findSome? WrittenSection.namesake? = none := by
    rw [List.findSome?_eq_none_iff]
    intro s member
    cases found : s.namesake? with
    | none => rfl
    | some m =>
      obtain ⟨_, opens, front, body, _⟩ := WrittenSection.namesake?_eq_some found
      exact absurd opens (plain s member _ (by simp [body]))
  rw [read, none, Option.getD_none]

/-- Whatever a document holds beside it, the section that is read gives the entities that it gives
alone. This is the section of entities, unless a body before it holds a tag with the same code and
name as its title. -/
theorem entities_read (d : Sectioned) :
    (readDxf d.text).entities = (readDxf d.read.text).entities ∧
      ((∀ s ∈ d.before, ∀ t ∈ s.body, ¬ t.content.Opens) →
        (readDxf d.text).entities = (readDxf d.drawing.text).entities) := by
  have same : (readDxf d.text).entities = (readDxf d.read.text).entities := by
    rw [d.entities_text, WrittenSection.entities_text d.read_opens]
  refine ⟨same, fun plain => ?_⟩
  rw [same, d.read_eq_drawing plain]

theorem entities_read_behind_header :
    let begins : WrittenTag := ⟨"0".toList, "SECTION".toList, 0, by decide, by decide⟩
    let ends : WrittenTag := ⟨"0".toList, "ENDSEC".toList, 0, by decide, by decide⟩
    let header : WrittenSection :=
      ⟨begins, ⟨"2".toList, "HEADER".toList, 2, by decide, by decide⟩,
        [⟨"9".toList, "ENTITIES".toList, 9, by decide, by decide⟩], ends, by decide, rfl, by decide,
        by decide⟩
    let drawing : WrittenSection :=
      ⟨begins, ⟨"2".toList, "ENTITIES".toList, 2, by decide, by decide⟩,
        [⟨"0".toList, "CIRCLE".toList, 0, by decide, by decide⟩], ends, by decide, rfl, by decide,
        by decide⟩
    let d : Sectioned := ⟨[header], drawing, [header], [], [], by decide, by decide, by decide⟩
    (∀ s ∈ d.before, ∀ t ∈ s.body, ¬ t.content.Opens) ∧
      (readDxf d.text).entities = (readDxf drawing.text).entities ∧
      (readDxf drawing.text).entities.length = 1 := by
  intro begins ends header drawing d
  have plain : ∀ s ∈ d.before, ∀ t ∈ s.body, ¬ t.content.Opens := by decide
  exact ⟨plain, d.entities_read.2 plain, by decide +kernel⟩

/-- A layer called like the section of entities hides the drawing. -/
theorem layer_hides_drawing :
    let begins : WrittenTag := ⟨"0".toList, "SECTION".toList, 0, by decide, by decide⟩
    let ends : WrittenTag := ⟨"0".toList, "ENDSEC".toList, 0, by decide, by decide⟩
    let layers : WrittenSection :=
      ⟨begins, ⟨"2".toList, "TABLES".toList, 2, by decide, by decide⟩,
        [⟨"0".toList, "LAYER".toList, 0, by decide, by decide⟩,
          ⟨"2".toList, "Entities".toList, 2, by decide, by decide⟩], ends, by decide, rfl,
        by decide, by decide⟩
    let drawing : WrittenSection :=
      ⟨begins, ⟨"2".toList, "ENTITIES".toList, 2, by decide, by decide⟩,
        [⟨"0".toList, "CIRCLE".toList, 0, by decide, by decide⟩,
          ⟨"40".toList, "3".toList, 40, by decide, by decide⟩], ends, by decide, rfl, by decide,
        by decide⟩
    let d : Sectioned := ⟨[layers], drawing, [], [], [], by decide, by decide, by decide⟩
    (readDxf d.text).entities.length = 0 ∧ (readDxf drawing.text).entities.length = 1 := by
  decide +kernel

end Sectioned

end Toolpath.Drawing
