import Mathlib
import Toolpath.Proofs.Decimal.Numeral
import Toolpath.Proofs.Drawing.Written

/-! What a record is read as. The numbers of its tags are found by their codes, wherever its other
tags stand, and nothing is reported where they are finite. -/
namespace Toolpath.Drawing

namespace Tag

def content (t : Tag) : Content := ⟨t.code, t.value⟩

end Tag

namespace Record

def contents (r : Record) : List Content := r.tags.map Tag.content

/-! Numbers by their codes. -/

theorem numbersAt_cons (codes : List Int) (c : Content) (contents : List Content) :
    numbersAt codes (c :: contents) =
      (if c.code ∈ codes then [(c.code, Decimal.finite? c.value)] else []) ++
        numbersAt codes contents := by
  unfold numbersAt
  rw [List.filter_cons]
  split <;> simp_all

theorem number_eq (t : Tag) : (number t).1 = (Decimal.finite? t.value).getD 0 := by
  unfold number
  cases Decimal.finite? t.value <;> rfl

theorem number_silent {t : Tag} (finite : (Decimal.finite? t.value).isSome) :
    (number t).2 = [] := by
  unfold number
  cases shape : Decimal.finite? t.value with
  | none =>
    rw [shape] at finite
    cases finite
  | some x => rfl

theorem numbers_silent {tags : List Tag} (seen : List Int)
    (numeric : Numeric (tags.map Tag.content)) : (numbers seen tags).2 = [] := by
  induction tags generalizing seen with
  | nil => rfl
  | cons t tags ih =>
    obtain ⟨here, rest⟩ := List.forall_mem_cons.mp numeric
    rw [numbers]
    split
    · rename_i reads
      simp only [number_silent (here reads.1 reads.2.1), ih _ rest, List.append_nil]
    · exact ih seen rest

/-- The first number behind a code is the one that counts. -/
theorem lookup_numbers {tags : List Tag} {seen : List Int} {code : Int} {x : Float}
    {others : List (Int × Option Float)} (low : 10 ≤ code) (high : code ≤ 59) (new : code ∉ seen)
    (found : numbersAt [code] (tags.map Tag.content) = (code, some x) :: others) :
    (numbers seen tags).1.lookup code = some x := by
  induction tags generalizing seen with
  | nil => cases found
  | cons t tags ih =>
    rw [List.map_cons, numbersAt_cons] at found
    rw [numbers]
    by_cases same : t.code = code
    · have here : t.content.code ∈ [code] := List.mem_singleton.mpr same
      rw [if_pos here, List.singleton_append, List.cons.injEq, Prod.mk.injEq] at found
      have reads : Decimal.finite? t.value = some x := found.1.2
      rw [same, if_pos ⟨low, high, new⟩]
      simp only [number_eq, reads, List.lookup_cons, beq_self_eq_true]
      rfl
    · have other : t.content.code ∉ [code] := fun here => same (List.mem_singleton.mp here)
      rw [if_neg other, List.nil_append] at found
      split
      · have unseen : code ∉ t.code :: seen := List.not_mem_cons_of_ne_of_not_mem (Ne.symm same) new
        simp only [List.lookup_cons, beq_eq_false_iff_ne.mpr (Ne.symm same), ih unseen found]
      · exact ih new found

/-- Each code of a permuted list of numbers has its own. -/
theorem numbersAt_singleton {codes : List Int} {contents : List Content} {value : Int → Float}
    (values : (numbersAt codes contents).Perm (codes.map fun code => (code, some (value code))))
    (distinct : codes.Nodup) {code : Int} (member : code ∈ codes) :
    numbersAt [code] contents = [(code, some (value code))] := by
  have own : numbersAt [code] contents =
      (numbersAt codes contents).filter fun n => n.1 = code := by
    unfold numbersAt
    rw [List.filter_map, List.filter_filter]
    congr 1
    apply List.filter_congr
    intro c _
    by_cases same : c.code = code <;> simp_all
  have alone : (codes.map fun code => (code, some (value code))).filter (fun n => n.1 = code) =
      [(code, some (value code))] := by
    rw [List.filter_map]
    change (codes.filter fun c => c = code).map _ = _
    rw [List.filter_eq, List.count_eq_one_of_mem distinct member]
    rfl
  rw [← List.perm_singleton, own, ← alone]
  exact values.filter _

/-! Figures, which need a number for each of their codes. -/

theorem lookup_figure {r : Record} {codes : List Int} {value : Int → Float}
    (values : (numbersAt codes r.contents).Perm (codes.map fun code => (code, some (value code))))
    (distinct : codes.Nodup) (bounds : ∀ code ∈ codes, 10 ≤ code ∧ code ≤ 59) {code : Int}
    (member : code ∈ codes) :
    (numbers [] r.tags).1.lookup code = some (value code) :=
  lookup_numbers (bounds code member).1 (bounds code member).2 List.not_mem_nil
    (numbersAt_singleton values distinct member)

theorem any_of_lookup {values : List (Int × Float)} {code : Int} {x : Float}
    (found : values.lookup code = some x) : values.any (·.1 == code) = true := by
  obtain ⟨front, back, rfl, _⟩ := List.lookup_eq_some_iff.mp found
  simp

/-- Nothing is missing where each code has its number. -/
theorem required_silent {r : Record} {codes : List Int} {value : Int → Float}
    (numeric : Numeric r.contents)
    (found : ∀ code ∈ codes, (numbers [] r.tags).1.lookup code = some (value code)) :
    r.required codes = ((numbers [] r.tags).1, []) := by
  have complete : codes.filter (fun code => !(numbers [] r.tags).1.any (·.1 == code)) = [] := by
    rw [List.filter_eq_nil_iff]
    intro code member
    rw [any_of_lookup (found code member)]
    decide
  simp only [required, complete, if_true, List.append_nil, numbers_silent [] numeric]

end Record

namespace Figure

def read : Figure → Record → Entity × List Diagnostic
  | .line => Record.line
  | .circle => Record.circle
  | .arc => Record.arc

theorem codes_bounds (f : Figure) : ∀ code ∈ f.codes, 10 ≤ code ∧ code ≤ 59 := by
  cases f <;> decide

theorem codes_nodup (f : Figure) : f.codes.Nodup := by
  cases f <;> decide

theorem read_eq (f : Figure) {r : Record} {value : Int → Float} (numeric : Numeric r.contents)
    (values : (numbersAt f.codes r.contents).Perm
      (f.codes.map fun code => (code, some (value code)))) :
    f.read r = (f.entity value, []) := by
  have found : ∀ code ∈ f.codes, (Record.numbers [] r.tags).1.lookup code = some (value code) :=
    fun code => Record.lookup_figure values f.codes_nodup f.codes_bounds
  have complete := Record.required_silent numeric found
  have each : ∀ code ∈ f.codes, Record.valueOf (Record.numbers [] r.tags).1 code = value code := by
    intro code member
    rw [Record.valueOf, found code member, Option.getD_some]
  cases f with
  | line =>
    simp only [read, Record.line, codes] at complete ⊢
    simp only [complete, entity, each 10 (by decide), each 20 (by decide), each 11 (by decide),
      each 21 (by decide)]
  | circle =>
    simp only [read, Record.circle, codes] at complete ⊢
    simp only [complete, entity, each 10 (by decide), each 20 (by decide), each 40 (by decide)]
  | arc =>
    simp only [read, Record.arc, codes] at complete ⊢
    simp only [complete, entity, each 10 (by decide), each 20 (by decide), each 40 (by decide),
      each 50 (by decide), each 51 (by decide)]

end Figure

/-! Flags. -/

theorem exists_truncate {x : Float} (finite : Binary64.isFinite x = true) :
    ∃ n, Binary64.truncate x = .ok n := by
  unfold Binary64.isFinite at finite
  unfold Binary64.truncate Binary64.wholeBy
  cases shape : Binary64.ofFloat x with
  | finite negative units => exact ⟨_, rfl⟩
  | nan | infinite _ =>
    rw [shape] at finite
    cases finite

namespace Record

theorem isClosed_finite {t : Tag} {x : Float} (reads : Decimal.finite? t.value = some x) :
    isClosed t = (lowestBit x, []) := by
  obtain ⟨shape, finite⟩ := Decimal.finite?_eq_some_iff.mp reads
  obtain ⟨n, whole⟩ := exists_truncate finite
  simp only [isClosed, shape, Option.map_some, whole, lowestBit]

theorem flagged_cons {flags : Option Float} {t : Tag} {tags : List Tag}
    (flagged : Flagged flags ((t :: tags).map Tag.content)) :
    (t.code ≠ 70 ∧ Flagged flags (tags.map Tag.content)) ∨
      ∃ x, t.code = 70 ∧ flags = some x ∧ Decimal.finite? t.value = some x ∧
        Flagged none (tags.map Tag.content) := by
  unfold Flagged at flagged
  rw [List.map_cons, numbersAt_cons] at flagged
  by_cases same : t.code = 70
  · have here : t.content.code ∈ [70] := List.mem_singleton.mpr same
    rw [if_pos here] at flagged
    cases flags with
    | none => cases flagged
    | some x =>
      obtain ⟨first, rest⟩ := List.cons.inj flagged
      exact .inr ⟨x, same, rfl, (Prod.mk.inj first).2, rest⟩
  · have other : t.content.code ∉ [70] := fun here => same (List.mem_singleton.mp here)
    rw [if_neg other] at flagged
    exact .inl ⟨same, flagged⟩

theorem flagged_nil {flags : Option Float} (flagged : Flagged flags []) : flags = none := by
  cases flags with
  | none => rfl
  | some x => cases flagged

theorem anyClosed_flagged {tags : List Tag} {flags : Option Float}
    (flagged : Flagged flags (tags.map Tag.content)) :
    anyClosed tags = (flags.any lowestBit, []) := by
  induction tags generalizing flags with
  | nil => rw [flagged_nil flagged, anyClosed, Option.any_none]
  | cons t tags ih =>
    rw [anyClosed]
    rcases flagged_cons flagged with ⟨other, rest⟩ | ⟨x, same, rfl, reads, rest⟩
    · rw [if_neg other, ih rest]
    · rw [if_pos same, isClosed_finite reads, ih rest, Option.any_some]
      cases lowestBit x <;> rfl

/-! Vertices that are inline. -/

namespace Outline

/-- What a number behind code 10 or 20 makes of the vertices. -/
def place (shape : List (Float × Float) × Option (Float × Float)) (n : Int × Option Float) :
    List (Float × Float) × Option (Float × Float) :=
  if n.1 = 10 then (shape.1 ++ shape.2.toList, some (n.2.getD 0, 0))
  else (shape.1, some ((shape.2.map (·.1)).getD 0, n.2.getD 0))

theorem take_vertices (o : Outline) (t : Tag) :
    ((o.take t).1.points, (o.take t).1.last) =
      (if t.code ∈ [10, 20] then [(t.code, Decimal.finite? t.value)] else []).foldl place
        (o.points, o.last) := by
  unfold take
  by_cases ten : t.code = 10
  · simp [ten, place, number_eq]
  · by_cases twenty : t.code = 20
    · simp [twenty, place, number_eq]
    · have other : t.code ∉ [10, 20] := by simp [ten, twenty]
      rw [if_neg ten, if_neg twenty, if_neg other]
      split <;> rfl

theorem takeAll_vertices (o : Outline) (tags : List Tag) :
    ((o.takeAll tags).1.points, (o.takeAll tags).1.last) =
      (numbersAt [10, 20] (tags.map Tag.content)).foldl place (o.points, o.last) := by
  induction tags generalizing o with
  | nil => rfl
  | cons t tags ih =>
    rw [List.map_cons, numbersAt_cons, List.foldl_append, takeAll]
    simp only [ih]
    rw [take_vertices]
    rfl

theorem foldl_corners (points : List (Float × Float))
    (shape : List (Float × Float) × Option (Float × Float)) :
    let vertices := (cornerNumbers points).foldl place shape
    vertices.1 ++ vertices.2.toList = shape.1 ++ shape.2.toList ++ points := by
  induction points generalizing shape with
  | nil => simp [cornerNumbers]
  | cons p points ih =>
    have next := ih (place (place shape (10, some p.1)) (20, some p.2))
    rw [cornerNumbers, List.flatMap_cons]
    simp only [List.cons_append, List.nil_append, List.foldl_cons]
    rw [← cornerNumbers]
    simp only at next
    rw [next]
    simp [place]

theorem take_closed_other (o : Outline) {t : Tag} (other : t.code ≠ 70) :
    (o.take t).1.closed = o.closed := by
  unfold take
  rw [if_neg other]
  split_ifs <;> rfl

theorem take_closed (o : Outline) {t : Tag} {x : Float} (same : t.code = 70)
    (reads : Decimal.finite? t.value = some x) : (o.take t).1.closed = lowestBit x := by
  unfold take
  simp [same, isClosed_finite reads]

theorem takeAll_closed (o : Outline) {tags : List Tag} {flags : Option Float}
    (flagged : Flagged flags (tags.map Tag.content)) :
    (o.takeAll tags).1.closed = (flags.map lowestBit).getD o.closed := by
  induction tags generalizing o flags with
  | nil => rw [flagged_nil flagged, takeAll, Option.map_none, Option.getD_none]
  | cons t tags ih =>
    rw [takeAll]
    rcases flagged_cons flagged with ⟨other, rest⟩ | ⟨x, same, rfl, reads, rest⟩
    · simp only [ih _ rest, take_closed_other o other]
    · simp only [ih _ rest, take_closed o same reads, Option.map_none, Option.getD_none,
        Option.map_some, Option.getD_some]

theorem take_silent (o : Outline) {t : Tag}
    (finite : t.code ∈ [10, 20, 70] → (Decimal.finite? t.value).isSome) : (o.take t).2 = [] := by
  unfold take
  split_ifs with ten twenty flags
  · exact number_silent (finite (by simp [ten]))
  · exact number_silent (finite (by simp [twenty]))
  · obtain ⟨x, reads⟩ := Option.isSome_iff_exists.mp (finite (by simp [flags]))
    rw [isClosed_finite reads]
  · rfl

theorem takeAll_silent (o : Outline) {tags : List Tag}
    (finite : ∀ t ∈ tags, t.code ∈ [10, 20, 70] → (Decimal.finite? t.value).isSome) :
    (o.takeAll tags).2 = [] := by
  induction tags generalizing o with
  | nil => rfl
  | cons t tags ih =>
    obtain ⟨here, rest⟩ := List.forall_mem_cons.mp finite
    rw [takeAll]
    simp only [take_silent o here, ih _ rest, List.append_nil]

end Outline

/-- Whatever the order of its other tags, a tag of one of these codes holds a finite number. -/
theorem isSome_of_numbersAt {codes : List Int} {tags : List Tag}
    (finite : ∀ n ∈ numbersAt codes (tags.map Tag.content), n.2.isSome) {t : Tag}
    (member : t ∈ tags) (coded : t.code ∈ codes) : (Decimal.finite? t.value).isSome := by
  refine finite (t.code, Decimal.finite? t.value) (List.mem_map.mpr ⟨t.content, ?_, rfl⟩)
  exact List.mem_filter.mpr ⟨List.mem_map_of_mem member, decide_eq_true coded⟩

theorem lightPolyline_eq {r : Record} {points : List (Float × Float)} {flags : Option Float}
    (corners : numbersAt [10, 20] r.contents = cornerNumbers points)
    (flagged : Flagged flags r.contents) :
    r.lightPolyline = (.polyline points (flags.any lowestBit), []) := by
  have finiteCorners : ∀ n ∈ numbersAt [10, 20] r.contents, n.2.isSome := by
    rw [corners]
    intro n member
    obtain ⟨p, _, corner⟩ := List.mem_flatMap.mp member
    rcases List.mem_pair.mp corner with rfl | rfl <;> rfl
  have finiteFlags : ∀ n ∈ numbersAt [70] r.contents, n.2.isSome := by
    rw [flagged]
    simp
  have silent : (Outline.empty.takeAll r.tags).2 = [] := by
    refine Outline.takeAll_silent _ fun t member coded => ?_
    rcases List.mem_append.mp (show t.code ∈ [10, 20] ++ [70] from coded) with corner | flag
    · exact isSome_of_numbersAt finiteCorners member corner
    · exact isSome_of_numbersAt finiteFlags member flag
  have vertices := Outline.takeAll_vertices .empty r.tags
  have placed := Outline.foldl_corners points (Outline.empty.points, Outline.empty.last)
  have closed := Outline.takeAll_closed .empty flagged
  rw [← contents, corners] at vertices
  simp only [← vertices] at placed
  have shape : (flags.map lowestBit).getD Outline.empty.closed = flags.any lowestBit := by
    cases flags <;> rfl
  simp only [lightPolyline, silent, placed, closed, shape]
  rfl

theorem vertex_eq {r : Record} {point : Float × Float} (numeric : Numeric r.contents)
    (values : (numbersAt [10, 20] r.contents).Perm [(10, some point.1), (20, some point.2)]) :
    r.vertex = (point, []) := by
  let value (code : Int) : Float := if code = 10 then point.1 else point.2
  have coordinates : (numbersAt [10, 20] r.contents).Perm
      ([10, 20].map fun code => (code, some (value code))) := values
  have found : ∀ code ∈ [10, 20], (numbers [] r.tags).1.lookup code = some (value code) :=
    fun code => lookup_figure coordinates (by decide) (by decide)
  have x := found 10 (by decide)
  have y := found 20 (by decide)
  simp only [vertex, valueOf, x, y, numbers_silent [] numeric]
  rfl

end Record

end Toolpath.Drawing
