import Mathlib
import Toolpath.Proofs.Drawing.Records

/-! The vertices of a polyline that are inline, whatever order its tags come in. Each tag of code 10 is a
vertex with the x that it holds; the last tag of code 20 up to the next vertex gives its y. What comes
before the first vertex makes one at x zero, if there is a y among it. No vertex is lost, taken
twice or given the y of another. -/
namespace Toolpath.Drawing

/-- The number that a tag counts as, zero if it holds no finite one. -/
def Tag.amount (t : Tag) : Float := (Decimal.finite? t.value).getD 0

/-- The last one of the tags with a code. -/
def lastOf? (code : Int) (tags : List Tag) : Option Tag := (tags.filter (·.code = code)).getLast?

/-- The tags up to the next one that begins a vertex. -/
def upToVertex (tags : List Tag) : List Tag := tags.takeWhile (·.code ≠ 10)

/-- The y that tags give to the vertex before them. -/
def lastY (tags : List Tag) : Float := ((lastOf? 20 tags).map Tag.amount).getD 0

/-- The vertices that tags begin. -/
def verticesOf : List Tag → List (Float × Float)
  | [] => []
  | t :: rest =>
    if t.code = 10 then (t.amount, lastY (upToVertex rest)) :: verticesOf rest else verticesOf rest

variable {t : Tag}

theorem lastOf?_cons (code : Int) (t : Tag) (tags : List Tag) :
    lastOf? code (t :: tags) = (lastOf? code tags).or (if t.code = code then some t else none) := by
  unfold lastOf?
  by_cases same : t.code = code
  · simp [same, List.getLast?_cons]
  · simp [same]

theorem lastOf?_eq_none_iff {code : Int} {tags : List Tag} :
    lastOf? code tags = none ↔ ¬ ∃ t ∈ tags, t.code = code := by
  simp [lastOf?]

theorem length_verticesOf (tags : List Tag) :
    (verticesOf tags).length = tags.countP (·.code = 10) := by
  induction tags with
  | nil => rfl
  | cons t tags ih =>
    rw [verticesOf]
    split <;> simp_all

/-- A tag that begins a vertex has its place after those that began one before it. -/
theorem verticesOf_place (front back : List Tag) (begins : t.code = 10) :
    (verticesOf (front ++ t :: back))[front.countP (·.code = 10)]? =
      some (t.amount, lastY (upToVertex back)) := by
  induction front with
  | nil => simp [verticesOf, begins]
  | cons other front ih =>
    rw [List.cons_append, verticesOf]
    split <;> simp_all

namespace Record

theorem number_amount (t : Tag) : (number t).1 = t.amount := number_eq t

/-- Flags that are no finite number close no polyline, as those of zero. -/
theorem isClosed_amount (t : Tag) : (isClosed t).1 = lowestBit t.amount := by
  have zero : lowestBit 0 = false := by decide
  unfold isClosed Tag.amount lowestBit Decimal.finite?
  cases shape : Decimal.float? t.value with
  | none => simpa [lowestBit] using zero.symm
  | some x =>
    by_cases finite : Binary64.isFinite x = true
    · obtain ⟨n, whole⟩ := exists_truncate finite
      simp [finite, whole]
    · obtain ⟨fault, none⟩ : ∃ fault, Binary64.truncate x = .error fault := by
        unfold Binary64.isFinite at finite
        unfold Binary64.truncate Binary64.wholeBy
        cases decoded : Binary64.ofFloat x <;> simp_all
      simpa [finite, none, lowestBit] using zero.symm

namespace Outline

/-- The open vertex once tags that begin none are taken. -/
def openAfter (last : Option (Float × Float)) (tags : List Tag) : Option (Float × Float) :=
  ((lastOf? 20 tags).map fun t => ((last.map (·.1)).getD 0, t.amount)).or last

theorem openAfter_begun (x : Float) (tags : List Tag) :
    openAfter (some (x, 0)) tags = some (x, lastY tags) := by
  unfold openAfter lastY
  cases lastOf? 20 tags <;> rfl

/-- One tag finishes the open vertex and begins another, gives it its y, or does nothing to it. -/
theorem take_open (o : Outline) (t : Tag) :
    (t.code = 10 ∧ (o.take t).1.points = o.points ++ o.last.toList ∧
      (o.take t).1.last = some (t.amount, 0)) ∨
    (t.code ≠ 10 ∧ (o.take t).1.points = o.points ∧ ∀ tags,
      openAfter (o.take t).1.last tags = openAfter o.last (t :: tags)) := by
  unfold take
  by_cases ten : t.code = 10
  · exact .inl ⟨ten, by simp [ten, number_amount]⟩
  · refine .inr ⟨ten, ?_⟩
    by_cases twenty : t.code = 20
    · refine ⟨by simp [twenty], fun tags => ?_⟩
      simp only [twenty, openAfter, lastOf?_cons, number_amount]
      cases lastOf? 20 tags <;> simp
    · have same (tags : List Tag) : openAfter o.last (t :: tags) = openAfter o.last tags := by
        simp [openAfter, lastOf?_cons, twenty]
      rw [if_neg ten, if_neg twenty]
      split <;> exact ⟨rfl, fun tags => (same tags).symm⟩

/-- A run of tags keeps the finished vertices, finishes the open one and adds its own. -/
theorem takeAll_points (o : Outline) (tags : List Tag) :
    (o.takeAll tags).1.points ++ (o.takeAll tags).1.last.toList =
      o.points ++ (openAfter o.last (upToVertex tags)).toList ++ verticesOf tags := by
  induction tags generalizing o with
  | nil => simp [takeAll, openAfter, upToVertex, lastOf?, verticesOf]
  | cons t tags ih =>
    simp only [takeAll, ih]
    rcases take_open o t with ⟨ten, points, last⟩ | ⟨other, points, last⟩
    · have none : upToVertex (t :: tags) = [] := by simp [upToVertex, ten]
      rw [points, last, openAfter_begun, none, verticesOf, if_pos ten]
      simp [openAfter, lastOf?]
    · have next : upToVertex (t :: tags) = t :: upToVertex tags := by simp [upToVertex, other]
      rw [points, last, next, verticesOf, if_neg other]

theorem take_flags (o : Outline) (t : Tag) :
    (o.take t).1.closed = if t.code = 70 then lowestBit t.amount else o.closed := by
  by_cases flags : t.code = 70
  · simp [take, flags, isClosed_amount]
  · rw [if_neg flags, take_closed_other o flags]

theorem takeAll_flags (o : Outline) (tags : List Tag) :
    (o.takeAll tags).1.closed = ((lastOf? 70 tags).map fun t => lowestBit t.amount).getD o.closed := by
  induction tags generalizing o with
  | nil => rfl
  | cons t tags ih =>
    simp only [takeAll, ih, take_flags, lastOf?_cons]
    cases lastOf? 70 tags with
    | some last => rfl
    | none => split <;> rfl

end Outline

/-- An inline polyline has a vertex for each tag of code 10, in order, with the number of that tag and the
last of code 20 before the next one; another one at x zero comes first exactly if there is a tag of code 20
before all of them. The lowest bit of the last flags closes it. -/
theorem lightPolyline_vertices (r : Record) : ∃ vertices : List (Float × Float),
    r.lightPolyline.1 = .polyline
      ((if ∃ t ∈ upToVertex r.tags, t.code = 20 then [(0, lastY (upToVertex r.tags))] else []) ++ vertices)
      (((lastOf? 70 r.tags).map fun t => lowestBit t.amount).getD false) ∧
    vertices.length = r.tags.countP (·.code = 10) ∧
    ∀ front t back, r.tags = front ++ t :: back → t.code = 10 →
      vertices[front.countP (·.code = 10)]? = some (t.amount, lastY (upToVertex back)) := by
  refine ⟨verticesOf r.tags, ?_, length_verticesOf r.tags, fun front t back whole begins => ?_⟩
  · have first : (Outline.openAfter none (upToVertex r.tags)).toList =
        if ∃ t ∈ upToVertex r.tags, t.code = 20 then [(0, lastY (upToVertex r.tags))] else [] := by
      have found := not_congr (@lastOf?_eq_none_iff 20 (upToVertex r.tags))
      rw [not_not] at found
      simp only [← found, Outline.openAfter, lastY]
      cases lastOf? 20 (upToVertex r.tags) <;> simp
    rw [lightPolyline]
    simp only [Outline.takeAll_points, Outline.takeAll_flags]
    rw [← first]
    rfl
  · rw [whole, verticesOf_place front back begins]

end Record

end Toolpath.Drawing
