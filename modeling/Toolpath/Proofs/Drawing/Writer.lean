import Mathlib
import Toolpath.Proofs.Drawing.Written
import Toolpath.Proofs.Gcode.Lexing

/-! Every drawing whose numbers are finite can be written, so the documents leave none out. -/
namespace Toolpath.Drawing
open Decimal

/-! Numbers. -/

theorem exists_numeral {x : Float} (finite : Binary64.isFinite x = true) :
    ∃ n : Numeral, n.value = x := by
  obtain ⟨negative, code, below, rfl⟩ := Binary64.exists_ofCode finite
  by_cases zero : code = 0
  · refine ⟨⟨negative, 0, 0⟩, ?_⟩
    subst zero
    cases negative <;> decide
  · refine ⟨Gcode.constantNumeral negative code, ?_⟩
    rw [Gcode.constant_value negative below, bne_iff_ne.mpr zero, Bool.and_true]

theorem exists_numberLine {x : Float} (finite : Binary64.isFinite x = true) :
    ∃ line, '\n' ∉ line ∧ finite? (Text.trim line) = some x := by
  obtain ⟨n, rfl⟩ := exists_numeral finite
  have bounds : ∀ c ∈ n.text, 45 ≤ c.toNat ∧ c.toNat ≤ 57 :=
    fun c member => isNumeric_bounds (Numeral.isNumeric_of_mem member)
  refine ⟨n.text, fun broken => absurd (bounds _ broken) (by decide), ?_⟩
  have visible : ∀ c ∈ n.text, Text.isBlank c = false := by
    intro c member
    have := bounds c member
    exact Gcode.isBlank_of_bounds (by omega) (by omega)
  rw [Text.trim_visible visible]
  exact finite?_eq_some_iff.mpr ⟨n.float?_text, finite⟩

/-! Tags and records. -/

/-- The codes that a writer needs. -/
def writerCodes : List Int := [0, 2, 10, 20, 11, 21, 40, 50, 51, 70]

/-- The names that a writer needs. -/
def writerNames : List String := ["ENTITIES", "LINE", "CIRCLE", "ARC", "LWPOLYLINE", "ENDSEC"]

theorem exists_tag {code : Int} (known : code ∈ writerCodes) {line : List Char}
    (unbroken : '\n' ∉ line) : ∃ t : WrittenTag, t.content = ⟨code, Text.trim line⟩ := by
  have codes : ∀ code ∈ writerCodes,
      int? (Text.trim (integer code)) = some code ∧ '\n' ∉ integer code := by decide
  obtain ⟨reads, whole⟩ := codes code known
  exact ⟨⟨integer code, line, code, reads, whole, unbroken⟩, rfl⟩

theorem exists_nameTag (code : Int) (name : String) (known : code ∈ writerCodes)
    (used : name ∈ writerNames) :
    ∃ t : WrittenTag, t.code = code ∧ Text.upper t.content.value = name.toList := by
  have names : ∀ name ∈ writerNames,
      '\n' ∉ name.toList ∧ Text.upper (Text.trim name.toList) = name.toList := by decide
  obtain ⟨unbroken, capital⟩ := names name used
  obtain ⟨t, content⟩ := exists_tag known unbroken
  refine ⟨t, congrArg Content.code content, ?_⟩
  rw [content]
  exact capital

/-- What some tags say, read as numbers. -/
def readNumbers (contents : List Content) : List (Int × Option Float) :=
  contents.map fun c => (c.code, finite? c.value)

theorem numbersAt_eq (codes : List Int) (contents : List Content) :
    numbersAt codes contents = (readNumbers contents).filter (·.1 ∈ codes) := by
  rw [numbersAt, readNumbers, List.filter_map]
  rfl

/-- A number behind a code that a writer needs, other than that of a marker. -/
def Writable (n : Int × Float) : Prop :=
  n.1 ∈ writerCodes ∧ n.1 ≠ 0 ∧ Binary64.isFinite n.2 = true

theorem exists_numberTags {numbers : List (Int × Float)} (writable : ∀ n ∈ numbers, Writable n) :
    ∃ tags : List WrittenTag, (∀ t ∈ tags, t.code ≠ 0) ∧
      readNumbers (tags.map WrittenTag.content) = numbers.map fun n => (n.1, some n.2) := by
  induction numbers with
  | nil => exact ⟨[], List.forall_mem_nil _, rfl⟩
  | cons n numbers ih =>
    obtain ⟨⟨known, plain, finite⟩, rest⟩ := List.forall_mem_cons.mp writable
    obtain ⟨line, unbroken, reads⟩ := exists_numberLine finite
    obtain ⟨t, content⟩ := exists_tag known unbroken
    obtain ⟨tags, others, same⟩ := ih rest
    have code : t.code = n.1 := congrArg Content.code content
    refine ⟨t :: tags, List.forall_mem_cons.mpr ⟨code ▸ plain, others⟩, ?_⟩
    rw [readNumbers] at same ⊢
    rw [List.map_cons, List.map_cons, List.map_cons, same, content, reads]

theorem exists_record (name : String) (used : name ∈ writerNames) (numbers : List (Int × Float))
    (writable : ∀ n ∈ numbers, Writable n) :
    ∃ r : WrittenRecord, r.name = name.toList ∧
      readNumbers r.contents = numbers.map fun n => (n.1, some n.2) := by
  obtain ⟨marker, marks, named⟩ := exists_nameTag 0 name (by decide) used
  obtain ⟨tags, plain, same⟩ := exists_numberTags writable
  exact ⟨⟨marker, tags, marks, plain⟩, named, same⟩

theorem numeric_of_readNumbers {contents : List Content} {numbers : List (Int × Float)}
    (same : readNumbers contents = numbers.map fun n => (n.1, some n.2)) : Numeric contents := by
  intro c member _ _
  have read : (c.code, finite? c.value) ∈ readNumbers contents := List.mem_map_of_mem member
  rw [same] at read
  obtain ⟨n, _, number⟩ := List.mem_map.mp read
  rw [← (Prod.mk.inj number).2]
  rfl

/-! Groups. -/

theorem exists_figure (f : Figure) (value : Int → Float)
    (finite : ∀ code ∈ f.codes, Binary64.isFinite (value code) = true) :
    ∃ g : Group, g.entity? = some (f.entity value) ∧ ¬ g.IsOpen := by
  have known : ∀ code ∈ f.codes, code ∈ writerCodes ∧ code ≠ 0 := by cases f <;> decide
  have used : f.name ∈ writerNames := by cases f <;> decide
  let numbers : List (Int × Float) := f.codes.map fun code => (code, value code)
  have writable : ∀ n ∈ numbers, Writable n := by
    intro n member
    obtain ⟨code, inside, rfl⟩ := List.mem_map.mp member
    exact ⟨(known code inside).1, (known code inside).2, finite code inside⟩
  obtain ⟨r, named, same⟩ := exists_record f.name used numbers writable
  have values : numbersAt f.codes r.contents = f.codes.map fun code => (code, some (value code)) := by
    rw [numbersAt_eq, same, List.map_map]
    refine List.filter_eq_self.mpr fun n member => ?_
    obtain ⟨code, inside, rfl⟩ := List.mem_map.mp member
    exact decide_eq_true inside
  exact ⟨.figure ⟨f, r, value, named, numeric_of_readNumbers same, .of_eq values⟩, rfl, id⟩

theorem code_of_mem_cornerNumbers {points : List (Float × Float)} {n : Int × Option Float}
    (member : n ∈ cornerNumbers points) : n.1 = 10 ∨ n.1 = 20 := by
  obtain ⟨p, _, corner⟩ := List.mem_flatMap.mp member
  rcases List.mem_pair.mp corner with rfl | rfl
  · exact .inl rfl
  · exact .inr rfl

theorem exists_outline {points : List (Float × Float)} (closed : Bool)
    (finite : ∀ p ∈ points, Binary64.isFinite p.1 = true ∧ Binary64.isFinite p.2 = true) :
    ∃ g : Group, g.entity? = some (.polyline points closed) ∧ ¬ g.IsOpen := by
  let flags : Option Float := if closed then some 1 else none
  have bit : flags.any lowestBit = closed := by cases closed <;> decide
  have flag : ∀ x ∈ flags, x = 1 := by cases closed <;> simp [flags]
  have ten : (10 : Int) ∈ writerCodes ∧ (10 : Int) ≠ 0 := by decide
  have twenty : (20 : Int) ∈ writerCodes ∧ (20 : Int) ≠ 0 := by decide
  let numbers : List (Int × Float) :=
    points.flatMap (fun p => [(10, p.1), (20, p.2)]) ++ flags.toList.map fun x => (70, x)
  have writable : ∀ n ∈ numbers, Writable n := by
    intro n member
    rcases List.mem_append.mp member with corner | last
    · obtain ⟨p, inside, here⟩ := List.mem_flatMap.mp corner
      rcases List.mem_pair.mp here with rfl | rfl
      · exact ⟨ten.1, ten.2, (finite p inside).1⟩
      · exact ⟨twenty.1, twenty.2, (finite p inside).2⟩
    · obtain ⟨x, inside, rfl⟩ := List.mem_map.mp last
      rw [flag x (Option.mem_toList.mp inside)]
      exact ⟨by decide, by decide, by decide⟩
  obtain ⟨r, named, same⟩ := exists_record "LWPOLYLINE" (by decide) numbers writable
  have read : readNumbers r.contents =
      cornerNumbers points ++ flags.toList.map fun x => (70, some x) := by
    rw [same, List.map_append, List.map_flatMap, List.map_map]
    rfl
  have corners : numbersAt [10, 20] r.contents = cornerNumbers points := by
    rw [numbersAt_eq, read, List.filter_append, List.filter_eq_self.mpr, List.filter_eq_nil_iff.mpr,
      List.append_nil]
    · intro n member
      obtain ⟨x, _, rfl⟩ := List.mem_map.mp member
      simp
    · intro n member
      rcases code_of_mem_cornerNumbers member with code | code <;> simp [code]
  have flagged : Flagged flags r.contents := by
    rw [Flagged, numbersAt_eq, read, List.filter_append, List.filter_eq_nil_iff.mpr,
      List.filter_eq_self.mpr, List.nil_append]
    · intro n member
      obtain ⟨x, _, rfl⟩ := List.mem_map.mp member
      simp
    · intro n member
      rcases code_of_mem_cornerNumbers member with code | code <;> simp [code]
  exact ⟨.outline ⟨r, points, flags, named, corners, flagged⟩, by rw [Group.entity?, bit], id⟩

/-- The shapes that a document can describe: those of the kinds read, with finite numbers. -/
def Entity.IsWritable : Entity → Prop
  | .line x1 y1 x2 y2 => ∀ x ∈ [x1, y1, x2, y2], Binary64.isFinite x = true
  | .polyline points _ =>
    ∀ p ∈ points, Binary64.isFinite p.1 = true ∧ Binary64.isFinite p.2 = true
  | .circle cx cy r => ∀ x ∈ [cx, cy, r], Binary64.isFinite x = true
  | .arc cx cy r start stop => ∀ x ∈ [cx, cy, r, start, stop], Binary64.isFinite x = true
  | .unsupported _ => False

theorem exists_group {e : Entity} (writable : e.IsWritable) :
    ∃ g : Group, g.entity? = some e ∧ ¬ g.IsOpen := by
  cases e with
  | line x1 y1 x2 y2 =>
    exact exists_figure .line (fun code => if code = 10 then x1 else if code = 20 then y1
      else if code = 11 then x2 else y2) (by simpa [Figure.codes, Entity.IsWritable] using writable)
  | polyline points closed => exact exists_outline closed writable
  | circle cx cy r =>
    exact exists_figure .circle (fun code => if code = 10 then cx else if code = 20 then cy else r)
      (by simpa [Figure.codes, Entity.IsWritable] using writable)
  | arc cx cy r start stop =>
    exact exists_figure .arc (fun code => if code = 10 then cx else if code = 20 then cy
      else if code = 40 then r else if code = 50 then start else stop)
      (by simpa [Figure.codes, Entity.IsWritable] using writable)
  | unsupported kind => exact writable.elim

theorem exists_groups {entities : List Entity} (writable : ∀ e ∈ entities, e.IsWritable) :
    ∃ groups : List Group, groups.filterMap Group.entity? = entities ∧
      groups.IsChain fun g next => ¬ (g.IsOpen ∧ next.IsStray) := by
  induction entities with
  | nil => exact ⟨[], rfl, .nil⟩
  | cons e entities ih =>
    obtain ⟨here, rest⟩ := List.forall_mem_cons.mp writable
    obtain ⟨g, described, shut⟩ := exists_group here
    obtain ⟨groups, others, apart⟩ := ih rest
    refine ⟨g :: groups, by rw [List.filterMap_cons_some described, others], ?_⟩
    cases groups with
    | nil => exact .singleton g
    | cons next groups => exact .cons_cons (fun joined => shut joined.1) apart

/-- Any shapes with finite numbers are described by some document. -/
theorem exists_document {entities : List Entity} (writable : ∀ e ∈ entities, e.IsWritable) :
    ∃ d : Document, d.entities = entities := by
  obtain ⟨groups, described, apart⟩ := exists_groups writable
  obtain ⟨title, begins, opens⟩ := exists_nameTag 2 "ENTITIES" (by decide) (by decide)
  obtain ⟨finish, marks, ends⟩ := exists_nameTag 0 "ENDSEC" (by decide) (by decide)
  exact ⟨⟨[], title, [], groups, finish, [], [], List.forall_mem_nil _, ⟨begins, opens⟩,
    List.forall_mem_nil _, apart, ⟨marks, ends⟩, List.forall_mem_nil _⟩, described⟩

end Toolpath.Drawing
