import Mathlib
import Toolpath.Proofs.Numeric.Exact

/-! Circles and arcs in segments, in exact arithmetic. An arc goes counter-clockwise from its start by
less than a full turn, in equal steps, and its last point is the one at its end, however many turns
the two angles are apart. Of cosine and sine no more is used than that a full turn brings them
round. -/
namespace Toolpath

namespace Planar
open Exact

/-! Equal steps. -/

/-- The angle after `j` of all `segments` steps. -/
noncomputable def stepAngle (start sweep : ℝ) (segments : ℤ) (j : ℕ) : ℝ :=
  start + sweep * j / segments

section
variable {start sweep : ℝ} {segments : ℤ}

theorem stepAngle_zero : stepAngle start sweep segments 0 = start := by
  rw [stepAngle, Nat.cast_zero, mul_zero, zero_div, add_zero]

theorem stepAngle_succ (j : ℕ) :
    stepAngle start sweep segments (j + 1) = stepAngle start sweep segments j + sweep / segments := by
  rw [stepAngle, stepAngle]
  push_cast
  ring

variable (positive : 1 ≤ segments)
include positive

theorem segments_pos : (0 : ℝ) < segments := by exact_mod_cast positive

theorem stepAngle_strictMono (turning : 0 < sweep) : StrictMono (stepAngle start sweep segments) := by
  refine strictMono_nat_of_lt_succ fun j => ?_
  rw [stepAngle_succ]
  exact lt_add_of_pos_right _ (div_pos turning (segments_pos positive))

theorem stepAngle_bounds (forward : 0 ≤ sweep) {j : ℕ} (within : j ≤ segments) :
    start ≤ stepAngle start sweep segments j ∧ stepAngle start sweep segments j ≤ start + sweep := by
  have count := segments_pos positive
  have part : (j : ℝ) ≤ segments := by exact_mod_cast within
  rw [stepAngle, add_le_add_iff_left, div_le_iff₀ count, le_add_iff_nonneg_right]
  exact ⟨by positivity, mul_le_mul_of_nonneg_left part forward⟩

theorem stepAngle_last : stepAngle start sweep segments segments.toNat = start + sweep := by
  have whole : ((segments.toNat : ℕ) : ℝ) = segments := by
    exact_mod_cast Int.toNat_of_nonneg (show 0 ≤ segments by omega)
  rw [stepAngle, whole, mul_div_cancel_right₀ _ (segments_pos positive).ne']

end

end Planar

namespace Exact

/-- Any two functions of an angle in degrees that repeat with each full turn. -/
class Turning where
  cosine : ℝ → ℝ
  sine : ℝ → ℝ
  cosine_periodic : Function.Periodic cosine 360
  sine_periodic : Function.Periodic sine 360

/-- A remainder is what the greatest whole multiple leaves. -/
noncomputable scoped instance [Turning] : Angular ℝ where
  sine angle := .ok (Turning.sine angle)
  cosine angle := .ok (Turning.cosine angle)
  modulo a b := a - b * ⌊a / b⌋

theorem radians_fullTurn (angle : ℝ) :
    (angle + 360) * (Real.pi / 180) = angle * (Real.pi / 180) + 2 * Real.pi := by
  ring

/-- The cosine and the sine themselves. -/
noncomputable abbrev Turning.degrees : Turning where
  cosine angle := Real.cos (angle * (Real.pi / 180))
  sine angle := Real.sin (angle * (Real.pi / 180))
  cosine_periodic angle := by simp only [radians_fullTurn, Real.cos_add_two_pi]
  sine_periodic angle := by simp only [radians_fullTurn, Real.sin_add_two_pi]

end Exact

namespace Planar
open Exact

/-! The sweep of an arc. -/

theorem fullTurn_eq : (fullTurn : ℝ) = 360 := by
  rw [fullTurn, ofInt_eq]
  norm_num

section
variable [Turning] {cx cy radius start stop sweep : ℝ} {segments : ℤ}

theorem arcSweep_eq (start stop : ℝ) :
    arcSweep start stop = 360 * Int.fract ((stop - start) / 360) := by
  have rest : Angular.modulo (stop - start) fullTurn = 360 * Int.fract ((stop - start) / 360) := by
    change stop - start - fullTurn * ⌊(stop - start) / fullTurn⌋ = _
    rw [fullTurn_eq, Int.fract]
    ring
  have below : ¬ Scalar.le fullTurn (360 * Int.fract ((stop - start) / 360)) = true := by
    have := Int.fract_lt_one ((stop - start) / 360)
    rw [le_eq, decide_eq_true_eq, fullTurn_eq]
    linarith
  rw [arcSweep, rest]
  exact if_neg below

theorem arcSweep_nonneg (start stop : ℝ) : 0 ≤ arcSweep start stop := by
  have := Int.fract_nonneg ((stop - start) / 360)
  rw [arcSweep_eq]
  linarith

theorem arcSweep_lt (start stop : ℝ) : arcSweep start stop < 360 := by
  have := Int.fract_lt_one ((stop - start) / 360)
  rw [arcSweep_eq]
  linarith

/-- A sweep leaves out the whole turns between the ends of its arc. -/
theorem arcSweep_turns (start stop : ℝ) :
    arcSweep start stop = stop - start + (-⌊(stop - start) / 360⌋ : ℤ) * 360 := by
  rw [arcSweep_eq, Int.fract]
  push_cast
  ring

/-! Points. -/

noncomputable def circlePoint (cx cy radius angle : ℝ) : ℝ × ℝ :=
  (cx + radius * Turning.cosine angle, cy + radius * Turning.sine angle)

theorem pointOnCircle_eq (cx cy radius angle : ℝ) :
    pointOnCircle cx cy radius angle = .ok (circlePoint cx cy radius angle) := rfl

theorem circlePoint_turns (angle : ℝ) (turns : ℤ) :
    circlePoint cx cy radius (angle + turns * 360) = circlePoint cx cy radius angle := by
  rw [circlePoint, Turning.cosine_periodic.int_mul turns angle,
    Turning.sine_periodic.int_mul turns angle, ← circlePoint]

theorem circlePoint_fullTurn : circlePoint cx cy radius 360 = circlePoint cx cy radius 0 := by
  rw [← circlePoint_turns 0 1, Int.cast_one, one_mul, zero_add]

theorem circlePoint_stop :
    circlePoint cx cy radius (start + arcSweep start stop) = circlePoint cx cy radius stop := by
  rw [arcSweep_turns, ← add_assoc, add_sub_cancel, circlePoint_turns]

/-- The points at the ends of all steps. -/
noncomputable def stepPoints (cx cy radius start sweep : ℝ) (segments : ℤ) : List (ℝ × ℝ) :=
  (List.range segments.toNat).map fun j =>
    circlePoint cx cy radius (stepAngle start sweep segments (j + 1))

/-- The points of a path are those at the ends of equal steps round a circle. -/
structure Steps (cx cy radius start sweep : ℝ) (segments : ℤ) (path : List (ℝ × ℝ)) : Prop where
  length : path.length = segments
  place : ∀ j : ℕ, j < segments → ∃ p, path[j]? = some p ∧
    pointOnCircle cx cy radius (stepAngle start sweep segments (j + 1)) = .ok p

variable (positive : 1 ≤ segments)
include positive

theorem stepPoints_steps :
    Steps cx cy radius start sweep segments (stepPoints cx cy radius start sweep segments) where
  length := by
    rw [stepPoints, List.length_map, List.length_range]
    omega
  place j within := by
    refine ⟨_, ?_, pointOnCircle_eq _ _ _ _⟩
    rw [stepPoints, List.getElem?_map, List.getElem?_range (by omega), Option.map_some]

theorem getLast?_stepPoints : (stepPoints cx cy radius start sweep segments).getLast? =
    some (circlePoint cx cy radius (start + sweep)) := by
  have last : segments.toNat = (segments.toNat - 1) + 1 := by omega
  rw [← stepAngle_last positive, stepPoints, last, List.range_succ, List.map_append,
    List.map_singleton, List.getLast?_concat]

theorem alongSegments_eq {point : ℤ → Except Fault (ℝ × ℝ)}
    (each : ∀ j : ℕ, point (j + 1) =
      .ok (circlePoint cx cy radius (stepAngle start sweep segments (j + 1)))) :
    alongSegments segments point = .ok (stepPoints cx cy radius start sweep segments) := by
  rw [alongSegments, if_neg (by omega)]
  simp only [each]
  exact List.mapM_pure

theorem arcPoints_eq : arcPoints cx cy radius start stop segments =
    .ok (stepPoints cx cy radius start (arcSweep start stop) segments) := by
  refine alongSegments_eq positive fun j => ?_
  rw [pointOnCircle_eq, stepAngle]
  simp only [ofInt_eq]
  push_cast
  rfl

theorem circlePoints_eq : circlePoints cx cy radius segments =
    .ok (stepPoints cx cy radius 0 360 segments) := by
  refine alongSegments_eq positive fun j => ?_
  rw [pointOnCircle_eq, stepAngle, fullTurn_eq, zero_add]
  simp only [ofInt_eq]
  push_cast
  rfl

/-- An arc sweeps less than a full turn, up to its end or to whole turns from it. Its points are as
many as its segments, at angles that divide the sweep evenly, grow from the start on and do not go
past the end of the sweep; the last point is the one at the end of the arc. The points of a circle
divide a full turn evenly, and the last of them is the one at the angle zero. -/
theorem arcs_and_circles (cx cy radius start stop : ℝ) :
    let sweep : ℝ := arcSweep start stop
    let angle := stepAngle start sweep segments
    (0 ≤ sweep ∧ sweep < 360 ∧ ∃ turns : ℤ, sweep = stop - start + turns * 360) ∧
      (∃ arc, arcPoints cx cy radius start stop segments = .ok arc ∧
        Steps cx cy radius start sweep segments arc ∧
        ∃ p, arc.getLast? = some p ∧ pointOnCircle cx cy radius stop = .ok p) ∧
      (angle 0 = start ∧ (0 < sweep → StrictMono angle) ∧
        ∀ j : ℕ, j ≤ segments → start ≤ angle j ∧ angle j ≤ start + sweep) ∧
      (∃ circle, circlePoints cx cy radius segments = .ok circle ∧
        Steps cx cy radius 0 360 segments circle ∧
        ∃ p, circle.getLast? = some p ∧ pointOnCircle cx cy radius 0 = .ok p) ∧
      ∀ j, stepAngle 0 360 segments (j + 1) = stepAngle 0 360 segments j + 360 / segments := by
  intro sweep angle
  have forward : 0 ≤ sweep := arcSweep_nonneg start stop
  refine ⟨⟨forward, arcSweep_lt start stop, _, arcSweep_turns start stop⟩, ?_, ?_, ?_, stepAngle_succ⟩
  · refine ⟨_, arcPoints_eq positive, stepPoints_steps positive, _, getLast?_stepPoints positive, ?_⟩
    rw [circlePoint_stop, pointOnCircle_eq]
  · exact ⟨stepAngle_zero, stepAngle_strictMono positive,
      fun j within => stepAngle_bounds positive forward within⟩
  · refine ⟨_, circlePoints_eq positive, stepPoints_steps positive, _, getLast?_stepPoints positive, ?_⟩
    rw [zero_add, circlePoint_fullTurn, pointOnCircle_eq]

end

/-- An arc from ten degrees below the east to ten degrees above it, in four segments. -/
theorem arcs_and_circles_east :
    letI := Turning.degrees
    (1 : ℤ) ≤ 4 ∧ arcSweep 350 (10 : ℝ) = 20 ∧
      (0 ≤ arcSweep 350 (10 : ℝ) ∧ arcSweep 350 (10 : ℝ) < 360) ∧
      ∃ arc, arcPoints 5 5 2 350 (10 : ℝ) 4 = .ok arc ∧ arc.length = (4 : ℤ) ∧
        ∃ p, arc.getLast? = some p ∧ pointOnCircle 5 5 2 (10 : ℝ) = .ok p := by
  let _ := Turning.degrees
  have some : (1 : ℤ) ≤ 4 := by decide
  have sweep : arcSweep 350 (10 : ℝ) = 20 := by
    rw [arcSweep_eq]
    norm_num [Int.fract]
  obtain ⟨⟨forward, below, -⟩, ⟨arc, drawn, steps, last⟩, -⟩ := arcs_and_circles some 5 5 2 350 10
  exact ⟨some, sweep, ⟨forward, below⟩, arc, drawn, steps.length, last⟩

end Planar

end Toolpath
