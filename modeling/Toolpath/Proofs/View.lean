import Mathlib
import Toolpath.Proofs.Numeric.Exact
import Toolpath.View

/-! Views in exact arithmetic. However often a view is fitted, its scale stays positive, so a point
of the display stands for one point of the world and no other. A box that has both dimensions is
shown whole in the padded display, centred, and as large as the margin lets it be. -/
namespace Toolpath.View
open scoped Exact

/-! Many fits in a row. -/

/-- A request to fit a view to a box, with a new width or height of the display where one is given. -/
structure Fitting (α : Type) where
  box : Envelope α
  width : Option α
  height : Option α

section Requests
variable {α : Type} [Scalar α]

def refitFor (view : View α) (fitting : Fitting α) : View α :=
  view.refit fitting.box (fitting.width.getD view.width) (fitting.height.getD view.height)

def refitAll (view : View α) (fittings : List (Fitting α)) : View α := fittings.foldl refitFor view

/-- The sides of the display at which a view shows a box. The y axes run against each other, so what
is lowest in the world is lowest in the display, where y is greatest. -/
def image (view : View α) (box : Envelope α) : Envelope α where
  minX := (view.toDisplay box.minX box.maxY).1
  maxX := (view.toDisplay box.maxX box.minY).1
  minY := (view.toDisplay box.minX box.maxY).2
  maxY := (view.toDisplay box.maxX box.minY).2

end Requests

variable {view : View ℝ} {box : Envelope ℝ} {width height : ℝ}

/-! A fit. -/

/-- A fit changes the size of the display only, or it takes a positive scale over. -/
theorem refit_cases (view : View ℝ) (box : Envelope ℝ) (width height : ℝ) :
    view.refit box width height = { view with width, height } ∨
      (0 < view.fitScale box width height ∧
        (view.refit box width height).scale = view.fitScale box width height) := by
  by_cases kept : (box.isDegenerate || Scalar.le (view.fitScale box width height) Scalar.zero) = true
  · exact .inl (if_pos kept)
  · right
    have fitted : view.refit box width height = _ := if_neg kept
    rw [Bool.or_eq_true, not_or, Exact.le_eq, Exact.zero_eq, decide_eq_true_eq, not_le] at kept
    exact ⟨kept.2, congrArg View.scale fitted⟩

theorem refit_scale_pos (positive : 0 < view.scale) (box : Envelope ℝ) (width height : ℝ) :
    0 < (view.refit box width height).scale := by
  rcases refit_cases view box width height with same | ⟨fitting, scale⟩
  · rw [same]
    exact positive
  · rw [scale]
    exact fitting

theorem refitAll_scale_pos (positive : 0 < view.scale) (fittings : List (Fitting ℝ)) :
    0 < (view.refitAll fittings).scale := by
  induction fittings generalizing view with
  | nil => exact positive
  | cons fitting fittings ih => exact ih (refit_scale_pos positive _ _ _)

/-! There and back. -/

theorem toWorld_eq (nonzero : view.scale ≠ 0) (dx dy : ℝ) :
    view.toWorld dx dy =
      .ok ((dx - view.offsetX) / view.scale, (view.height - dy - view.offsetY) / view.scale) := by
  rw [toWorld, Exact.quotient_eq nonzero, Exact.quotient_eq nonzero]
  rfl

theorem toWorld_toDisplay (nonzero : view.scale ≠ 0) (x y : ℝ) :
    view.toWorld (view.toDisplay x y).1 (view.toDisplay x y).2 = .ok (x, y) := by
  have right : (view.toDisplay x y).1 - view.offsetX = x * view.scale := add_sub_cancel_right _ _
  have up : view.height - (view.toDisplay x y).2 - view.offsetY = y * view.scale := by
    rw [toDisplay, sub_sub_cancel, add_sub_cancel_right]
  rw [toWorld_eq nonzero, right, up, mul_div_cancel_right₀ x nonzero, mul_div_cancel_right₀ y nonzero]

theorem toDisplay_of_toWorld (nonzero : view.scale ≠ 0) {dx dy : ℝ} {p : ℝ × ℝ}
    (shown : view.toWorld dx dy = .ok p) : view.toDisplay p.1 p.2 = (dx, dy) := by
  rw [toWorld_eq nonzero, Except.ok.injEq] at shown
  rw [← shown, toDisplay, div_mul_cancel₀ _ nonzero, div_mul_cancel₀ _ nonzero, sub_add_cancel,
    sub_add_cancel, sub_sub_cancel]

/-- However often it is fitted, to whatever boxes and displays, a view of positive scale keeps a
positive scale, finds a point of the world for each point of the display, and takes each point of
either to the other and back. -/
theorem refitAll_invertible (positive : 0 < view.scale) (fittings : List (Fitting ℝ)) :
    let fitted := view.refitAll fittings
    0 < fitted.scale ∧
      (∀ x y, fitted.toWorld (fitted.toDisplay x y).1 (fitted.toDisplay x y).2 = .ok (x, y)) ∧
      ∀ dx dy, ∃ x y, fitted.toWorld dx dy = .ok (x, y) ∧ fitted.toDisplay x y = (dx, dy) := by
  intro fitted
  have scaled : 0 < fitted.scale := refitAll_scale_pos positive fittings
  refine ⟨scaled, toWorld_toDisplay scaled.ne', ?_⟩
  intro dx dy
  have shown := toWorld_eq scaled.ne' dx dy
  exact ⟨_, _, shown, toDisplay_of_toWorld scaled.ne' shown⟩

/-- Fitted to a straight line, then to a box for a smaller display, then to one that is inside out: the
first and the last leave the scale, and the view can be inverted all along. -/
theorem refitAll_invertible_three :
    let first : View ℝ := plain 800 600 60 (9 / 10)
    let fittings : List (Fitting ℝ) :=
      [⟨⟨0, 10, 5, 5⟩, none, none⟩, ⟨⟨0, 100, 0, 100⟩, some 400, none⟩, ⟨⟨10, 0, 0, 10⟩, none, some 300⟩]
    0 < first.scale ∧ ∀ x y, (first.refitAll fittings).toWorld
      ((first.refitAll fittings).toDisplay x y).1 ((first.refitAll fittings).toDisplay x y).2 =
        .ok (x, y) := by
  intro first fittings
  have positive : 0 < first.scale := by
    change (0 : ℝ) < (1 : Int)
    norm_num
  exact ⟨positive, (refitAll_invertible positive fittings).2.1⟩

/-! What a display shows of a box. -/

theorem contains_iff (x y : ℝ) :
    box.contains x y = true ↔
      (box.minX ≤ x ∧ x ≤ box.maxX) ∧ (box.minY ≤ y ∧ y ≤ box.maxY) := by
  simp only [Envelope.contains, Exact.le_eq, Bool.and_eq_true, decide_eq_true_eq]

/-- A view of positive scale shows the points of a box at the points between its sides. -/
theorem image_contains_iff (positive : 0 < view.scale) (box : Envelope ℝ) (dx dy : ℝ) :
    (view.image box).contains dx dy = true ↔
      ∃ x y, box.contains x y = true ∧ view.toDisplay x y = (dx, dy) := by
  have ordered (x y : ℝ) : (view.image box).contains (view.toDisplay x y).1 (view.toDisplay x y).2 =
      true ↔ box.contains x y = true := by
    simp only [contains_iff, image, toDisplay, add_le_add_iff_right, sub_le_sub_iff_left,
      mul_le_mul_iff_left₀ positive]
    tauto
  constructor
  · intro inside
    have shown := toDisplay_of_toWorld positive.ne' (toWorld_eq positive.ne' dx dy)
    refine ⟨_, _, (ordered _ _).mp ?_, shown⟩
    rw [shown]
    exact inside
  · rintro ⟨x, y, inside, shown⟩
    have within := (ordered x y).mpr inside
    rw [shown] at within
    exact within

/-! A box that can be fitted. -/

theorem max_div_min {p q margin : ℝ} (first : 0 < p) (second : 0 < q) (nonnegative : 0 ≤ margin) :
    max (min p q * margin / p) (min p q * margin / q) = margin := by
  have fills {a b : ℝ} (positive : 0 < a) (tighter : a ≤ b) :
      min a b * margin / a = margin ∧ min a b * margin / b ≤ margin := by
    rw [min_eq_left tighter]
    refine ⟨mul_div_cancel_left₀ margin positive.ne', ?_⟩
    rw [div_le_iff₀ (positive.trans_le tighter), mul_comm margin]
    exact mul_le_mul_of_nonneg_right tighter nonnegative
  rcases le_total p q with across | down
  · obtain ⟨full, less⟩ := fills first across
    rw [full, max_eq_left less]
  · obtain ⟨full, less⟩ := fills second down
    rw [min_comm, full, max_eq_right less]

/-- The box has both dimensions, and the padding leaves some of the display. -/
structure Roomy (view : View ℝ) (box : Envelope ℝ) (width height : ℝ) : Prop where
  wide : box.minX < box.maxX
  tall : box.minY < box.maxY
  across : 2 * view.padding < width
  down : 2 * view.padding < height
  margin : 0 < view.fitMargin

namespace Roomy
variable (roomy : Roomy view box width height)
include roomy

theorem width_pos : 0 < box.width := sub_pos.mpr roomy.wide

theorem height_pos : 0 < box.height := sub_pos.mpr roomy.tall

theorem usable_width_pos : 0 < usable width view.padding := by
  rw [usable, Exact.ofInt_eq, mul_comm]
  exact sub_pos.mpr roomy.across

theorem usable_height_pos : 0 < usable height view.padding := by
  rw [usable, Exact.ofInt_eq, mul_comm]
  exact sub_pos.mpr roomy.down

theorem fitScale_pos : 0 < view.fitScale box width height := by
  rw [fitScale, Exact.min_eq]
  exact mul_pos (lt_min (div_pos roomy.usable_width_pos roomy.width_pos)
    (div_pos roomy.usable_height_pos roomy.height_pos)) roomy.margin

/-- The view is fitted, whatever it was before. -/
theorem refit_eq : view.refit box width height =
    { view with
      width, height
      scale := view.fitScale box width height
      offsetX := centredOffset view.padding width box.width box.minX (view.fitScale box width height)
      offsetY := centredOffset view.padding height box.height box.minY
        (view.fitScale box width height) } := by
  refine if_neg ?_
  rw [Bool.or_eq_true, not_or, Exact.le_eq, Exact.zero_eq, decide_eq_true_eq, not_le,
    Envelope.isDegenerate, Bool.or_eq_true, not_or]
  simp only [Exact.same_eq, Exact.zero_eq, decide_eq_true_eq]
  exact ⟨⟨roomy.width_pos.ne', roomy.height_pos.ne'⟩, roomy.fitScale_pos⟩

/-- What is shown of the box leaves as much of the padded display on its left as on its right, and
as much above it as below. -/
theorem image_refit : (view.refit box width height).image box =
    { minX := view.padding +
        (usable width view.padding - box.width * view.fitScale box width height) / 2
      maxX := width - view.padding -
        (usable width view.padding - box.width * view.fitScale box width height) / 2
      minY := view.padding +
        (usable height view.padding - box.height * view.fitScale box width height) / 2
      maxY := height - view.padding -
        (usable height view.padding - box.height * view.fitScale box width height) / 2 } := by
  rw [roomy.refit_eq]
  simp only [image, toDisplay, centredOffset, usable, Envelope.width, Envelope.height, Exact.ofInt_eq,
    Envelope.mk.injEq]
  push_cast
  refine ⟨?_, ?_, ?_, ?_⟩ <;> ring

/-- The tighter axis is filled up to the margin, the other one no further. -/
theorem max_fill : max (box.width * view.fitScale box width height / usable width view.padding)
    (box.height * view.fitScale box width height / usable height view.padding) = view.fitMargin := by
  have across := div_pos roomy.usable_width_pos roomy.width_pos
  have down := div_pos roomy.usable_height_pos roomy.height_pos
  rw [mul_comm box.width, mul_comm box.height, ← div_div_eq_mul_div, ← div_div_eq_mul_div, fitScale,
    Exact.min_eq]
  exact max_div_min across down roomy.margin.le

theorem extents_le (within : view.fitMargin ≤ 1) :
    box.width * view.fitScale box width height ≤ usable width view.padding ∧
      box.height * view.fitScale box width height ≤ usable height view.padding := by
  rw [← div_le_one roomy.usable_width_pos, ← div_le_one roomy.usable_height_pos, ← max_le_iff,
    roomy.max_fill]
  exact within

theorem image_extents :
    ((view.refit box width height).image box).width = box.width * view.fitScale box width height ∧
      ((view.refit box width height).image box).height =
        box.height * view.fitScale box width height := by
  rw [roomy.image_refit]
  simp only [Envelope.width, Envelope.height, usable, Exact.ofInt_eq]
  push_cast
  constructor <;> ring

/-- Of what a view was before, its padding and its margin are all that a fit keeps. -/
theorem refit_congr {other : View ℝ} (padding : other.padding = view.padding)
    (margin : other.fitMargin = view.fitMargin) :
    other.refit box width height = view.refit box width height := by
  have otherRoomy : other.Roomy box width height := by
    constructor
    · exact roomy.wide
    · exact roomy.tall
    · rw [padding]
      exact roomy.across
    · rw [padding]
      exact roomy.down
    · rw [margin]
      exact roomy.margin
  rw [otherRoomy.refit_eq, roomy.refit_eq]
  simp only [fitScale, padding, margin]

end Roomy

/-- Fitting a box that has both dimensions to a display larger than its padding shows the points of
the box in a rectangle inside the padding, centred in the display. The tighter axis of the rectangle
fills what the padding leaves up to the margin. What the view was before makes no difference. -/
theorem refit_shows_box (roomy : view.Roomy box width height) (within : view.fitMargin ≤ 1) :
    let fitted := view.refit box width height
    let image := fitted.image box
    (∀ dx dy, image.contains dx dy = true ↔
        ∃ x y, box.contains x y = true ∧ fitted.toDisplay x y = (dx, dy)) ∧
      ((view.padding ≤ image.minX ∧ image.maxX ≤ width - view.padding) ∧
        view.padding ≤ image.minY ∧ image.maxY ≤ height - view.padding) ∧
      image.center = (width / 2, height / 2) ∧
      max (image.width / usable width view.padding) (image.height / usable height view.padding) =
        view.fitMargin ∧
      ∀ other : View ℝ, other.padding = view.padding → other.fitMargin = view.fitMargin →
        other.refit box width height = fitted := by
  intro fitted image
  have scaled : 0 < fitted.scale := by
    rw [show fitted = _ from roomy.refit_eq]
    exact roomy.fitScale_pos
  have sides : image = _ := roomy.image_refit
  obtain ⟨across, down⟩ := roomy.extents_le within
  obtain ⟨extentAcross, extentDown⟩ := roomy.image_extents
  refine ⟨image_contains_iff scaled box, ?_, ?_, ?_, fun _ => roomy.refit_congr⟩
  · rw [sides]
    refine ⟨⟨?_, ?_⟩, ?_, ?_⟩ <;> linarith
  · rw [sides, Envelope.center]
    simp only [Exact.ofInt_eq, Prod.mk.injEq]
    push_cast
    constructor <;> ring
  · rw [extentAcross, extentDown, roomy.max_fill]

/-- A square box below the origin, fitted to a wide display that showed something else: it is shown in
the middle, and fills nine tenths of what the padding leaves of the height. -/
theorem refit_shows_box_square :
    let view : View ℝ := ⟨100, 100, 7, -3, 11, 60, 9 / 10⟩
    let box : Envelope ℝ := ⟨-20, 80, -150, -50⟩
    let image := (view.refit box 800 600).image box
    (view.Roomy box 800 600 ∧ view.fitMargin ≤ 1) ∧ image.center = (800 / 2, 600 / 2) ∧
      max (image.width / usable 800 60) (image.height / usable 600 60) = 9 / 10 := by
  intro view box image
  have roomy : view.Roomy box 800 600 := by
    constructor <;> norm_num [view, box]
  have within : view.fitMargin ≤ 1 := by norm_num [view]
  obtain ⟨-, -, centred, full, -⟩ := refit_shows_box roomy within
  exact ⟨⟨roomy, within⟩, centred, full⟩

end Toolpath.View
